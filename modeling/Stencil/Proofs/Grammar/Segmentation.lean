import Stencil.Document.Segment
import Mathlib.Tactic.Lemma

/-!
The grammar of segments. `Segment.Cut` says how the first piece of a template ends: a comment, an
output or a tag ends with the first closing delimiter behind its opening one, and a text ends before
the next opening delimiter. **Cutting** a template (`Segment.Cuts`) takes one piece after the other
and may stop anywhere; what is left is **unclosed** (`Unclosed`) if an opening delimiter comes next
and its closing one never comes.

Every template can either be cut to its end or up to an unclosed delimiter (`cuts_or_unclosed`).
In the first case `segments` gives the pieces (`segments_eq_ok_iff`), in the second it fails with
the place of the delimiter (`Cuts.segments_eq`, `segments_of_unclosed`).
-/

namespace Stencil

open Text (bytes newlines)

/-! ### Parts of a text -/

namespace Text

/-- The text behind the first `n` bytes. -/
def dropBytes (n : Nat) : List Char → List Char
  | [] => []
  | c :: cs => if n = 0 then c :: cs else dropBytes (n - c.utf8Size) cs

/-- The text up to byte `n`. -/
def takeBytes (n : Nat) : List Char → List Char
  | [] => []
  | c :: cs => if n = 0 then [] else c :: takeBytes (n - c.utf8Size) cs

/-- The part of the text that the span covers. -/
def slice (cs : List Char) (s : Span) : List Char :=
  takeBytes s.length (dropBytes s.start cs)

lemma dropBytes_append (xs ys : List Char) : dropBytes (bytes xs) (xs ++ ys) = ys := by
  induction xs with
  | nil => cases ys <;> simp [dropBytes]
  | cons c xs ih =>
    have hpos := c.utf8Size_pos
    rw [List.cons_append, dropBytes, bytes_cons, if_neg (by omega), Nat.add_sub_cancel_left, ih]

lemma takeBytes_append (xs ys : List Char) : takeBytes (bytes xs) (xs ++ ys) = xs := by
  induction xs with
  | nil => cases ys <;> simp [takeBytes]
  | cons c xs ih =>
    have hpos := c.utf8Size_pos
    rw [List.cons_append, takeBytes, bytes_cons, if_neg (by omega), Nat.add_sub_cancel_left, ih]

lemma slice_append (xs ys zs : List Char) :
    slice (xs ++ (ys ++ zs)) ⟨bytes xs, bytes xs + bytes ys⟩ = ys := by
  rw [slice, dropBytes_append, Span.length, Nat.add_sub_cancel_left, takeBytes_append]

end Text

/-! ### Delimiters -/

namespace SegmentKind

/-- The delimiter before the body. -/
def opening : SegmentKind → List Char
  | text => []
  | comment => ['\x7b', '#']
  | output => ['\x7b', '\x7b']
  | tag => ['\x7b', '%']

/-- The delimiter behind the body. -/
def closing : SegmentKind → List Char
  | text => []
  | comment => ['#', '\x7d']
  | output => ['\x7d', '\x7d']
  | tag => ['%', '\x7d']

lemma opening_length {kind : SegmentKind} (h : kind ≠ .text) : kind.opening.length = 2 := by
  cases kind <;> first | rfl | exact absurd rfl h

end SegmentKind

namespace Segment

lemma source_eq (kind : SegmentKind) (body : List Char) :
    source kind body = kind.opening ++ (body ++ kind.closing) := by
  cases kind <;> simp [source, SegmentKind.opening, SegmentKind.closing]

/-- An opening delimiter comes next. -/
def Opens (cs : List Char) : Prop :=
  ∃ kind : SegmentKind, kind ≠ .text ∧ kind.opening <+: cs

/-- No opening delimiter stands anywhere in the text. -/
def Plain (cs : List Char) : Prop :=
  ∀ kind : SegmentKind, kind ≠ .text → ¬ kind.opening <:+: cs

/-- An opening delimiter comes next, and its closing delimiter never comes. -/
def Unclosed (cs : List Char) : Prop :=
  ∃ (kind : SegmentKind) (rest : List Char), kind ≠ .text ∧ cs = kind.opening ++ rest ∧
    ¬ kind.closing <:+: rest

lemma pair_prefix_cons {a b c : Char} {cs : List Char} :
    [a, b] <+: c :: cs ↔ a = c ∧ cs.head? = some b := by
  cases cs <;> simp [List.cons_prefix_cons, eq_comm]

lemma pair_infix_cons {a b c : Char} {cs : List Char} :
    [a, b] <:+: c :: cs ↔ a = c ∧ cs.head? = some b ∨ [a, b] <:+: cs := by
  rw [List.infix_cons_iff, pair_prefix_cons]

lemma Unclosed.ne_nil {cs : List Char} (h : Unclosed cs) : cs ≠ [] := by
  rintro rfl
  obtain ⟨kind, rest, hkind, hnil, _⟩ := h
  have hlength := congrArg List.length hnil
  rw [List.length_append, SegmentKind.opening_length hkind, List.length_nil] at hlength
  omega

lemma opens_cons_iff {c : Char} {cs : List Char} :
    Opens (c :: cs) ↔ c = '\x7b' ∧ ∃ d, cs.head? = some d ∧ (delimiter? d).isSome := by
  have hdelimiter (d : Char) : (delimiter? d).isSome ↔ d = '#' ∨ d = '\x7b' ∨ d = '%' := by
    grind [delimiter?]
  constructor
  · rintro ⟨kind, hkind, hfront⟩
    cases kind with
    | text => exact absurd rfl hkind
    | comment | output | tag =>
      obtain ⟨rfl, hhead⟩ := pair_prefix_cons.1 hfront
      exact ⟨rfl, _, hhead, by decide⟩
  · rintro ⟨rfl, d, hhead, hd⟩
    obtain rfl | rfl | rfl := (hdelimiter d).1 hd
    · exact ⟨.comment, by decide, pair_prefix_cons.2 ⟨rfl, hhead⟩⟩
    · exact ⟨.output, by decide, pair_prefix_cons.2 ⟨rfl, hhead⟩⟩
    · exact ⟨.tag, by decide, pair_prefix_cons.2 ⟨rfl, hhead⟩⟩

lemma opens_iff {cs : List Char} : opens cs = true ↔ Opens cs := by
  cases cs with
  | nil =>
    have hnot : ¬ Opens [] := fun ⟨kind, hkind, hfront⟩ => by
      simpa [SegmentKind.opening_length hkind] using hfront.length_le
    simpa [opens] using hnot
  | cons c cs =>
    rw [opens_cons_iff]
    cases cs <;> simp [opens]

/-- Where an opening delimiter stands is seen from two characters. -/
lemma opens_take {c : Char} {body rest : List Char} :
    Opens (c :: (body ++ rest.take 1)) ↔ Opens (c :: (body ++ rest)) := by
  have hhead : (body ++ rest.take 1).head? = (body ++ rest).head? := by
    cases body <;> cases rest <;> rfl
  rw [opens_cons_iff, opens_cons_iff, hhead]

/-- Delimiters take two characters. -/
lemma plain_of_length {cs : List Char} (h : cs.length < 2) : Plain cs := by
  intro kind hkind hinside
  have hlength := hinside.length_le
  rw [SegmentKind.opening_length hkind] at hlength
  omega

lemma plain_cons_iff {c : Char} {cs : List Char} :
    Plain (c :: cs) ↔ ¬ Opens (c :: cs) ∧ Plain cs := by
  simp only [Plain, Opens, List.infix_cons_iff]
  grind

/-! ### The first piece -/

/-- **The first piece of a template**, and what follows it. A text goes on up to the next opening
delimiter, all other pieces up to the first closing one. -/
inductive Cut : List Char → SegmentKind → List Char → List Char → Prop
  | text {body rest : List Char} : body ≠ [] → Plain (body ++ rest.take 1) →
      rest = [] ∨ Opens rest → Cut (body ++ rest) .text body rest
  | delimited {kind : SegmentKind} {body : List Char} (rest : List Char) : kind ≠ .text →
      ¬ kind.closing <:+: body ++ kind.closing.dropLast →
      Cut (source kind body ++ rest) kind body rest

lemma head?_append_cons (body : List Char) (a : Char) (rest : List Char) :
    (body ++ a :: rest).head? = (body ++ [a]).head? := by
  cases body <;> rfl

/-- No closing delimiter has been skipped. -/
lemma notInfix_of_untilClose {a b : Char} {cs : List Char} {r : List Char × List Char}
    (h : untilClose a b cs = some r) : ¬ [a, b] <:+: r.1 ++ [a] := by
  fun_induction untilClose a b cs generalizing r with
  | case1 => cases h
  | case2 => cases h
  | case3 c d rest =>
    cases h
    simp [pair_infix_cons]
  | case4 c d rest hnot ih =>
    obtain ⟨r, hr, rfl⟩ := Option.map_eq_some_iff.1 h
    have hhead : (r.1 ++ [a]).head? = (d :: rest).head? := by
      rw [← untilClose_append hr, head?_append_cons _ a (b :: r.2)]
    rw [List.cons_append, pair_infix_cons, hhead, List.head?_cons, Option.some.injEq]
    rintro (⟨rfl, rfl⟩ | hinside)
    · exact hnot ⟨rfl, rfl⟩
    · exact ih hr hinside

lemma untilClose_of_notInfix {a b : Char} {body : List Char} (rest : List Char)
    (h : ¬ [a, b] <:+: body ++ [a]) :
    untilClose a b (body ++ a :: b :: rest) = some (body, rest) := by
  induction body with
  | nil => rw [List.nil_append, untilClose, if_pos ⟨rfl, rfl⟩]
  | cons c body ih =>
    rw [List.cons_append, pair_infix_cons, not_or] at h
    have hclose := ih h.2
    rw [← head?_append_cons body a (b :: rest)] at h
    rw [List.cons_append]
    cases htail : body ++ a :: b :: rest with
    | nil => simp at htail
    | cons d tail =>
      rw [htail, List.head?_cons, Option.some.injEq, eq_comm] at h
      rw [untilClose, if_neg h.1, ← htail, hclose]
      rfl

lemma untilClose_eq_none_iff {a b : Char} {cs : List Char} :
    untilClose a b cs = none ↔ ¬ [a, b] <:+: cs := by
  fun_induction untilClose a b cs with
  | case1 => simp
  | case2 => simp [pair_infix_cons]
  | case3 c d rest hc => simp [pair_infix_cons, hc]
  | case4 c d rest hnot ih =>
    rw [Option.map_eq_none_iff, ih, pair_infix_cons (c := c), List.head?_cons, Option.some.injEq,
      eq_comm, not_or, and_iff_right hnot]

lemma plain_textRun (cs : List Char) :
    Plain ((textRun cs).1 ++ (textRun cs).2.take 1) ∧
      ((textRun cs).2 = [] ∨ Opens (textRun cs).2) := by
  induction cs with
  | nil => exact ⟨plain_of_length (by simp [textRun]), .inl rfl⟩
  | cons c cs ih =>
    rw [textRun]
    split
    next hopens =>
      exact ⟨plain_of_length (by simp), .inr (opens_iff.1 hopens)⟩
    next hnot =>
      rw [opens_iff, ← textRun_append cs, ← opens_take] at hnot
      exact ⟨plain_cons_iff.2 ⟨hnot, ih.1⟩, ih.2⟩

lemma textRun_append_eq {body rest : List Char} (hbody : Plain (body ++ rest.take 1))
    (hrest : rest = [] ∨ Opens rest) : textRun (body ++ rest) = (body, rest) := by
  induction body with
  | nil =>
    cases rest with
    | nil => rfl
    | cons c rest =>
      have hopens : Opens (c :: rest) := hrest.resolve_left (List.cons_ne_nil c rest)
      rw [List.nil_append, textRun, if_pos (opens_iff.2 hopens)]
  | cons c body ih =>
    rw [List.cons_append, plain_cons_iff, opens_take] at hbody
    rw [List.cons_append, textRun, if_neg (mt opens_iff.1 hbody.1), ih hbody.2]

lemma first?_of_opening {kind : SegmentKind} (hkind : kind ≠ .text) (cs : List Char) :
    ∃ a b, kind.closing = [a, b] ∧ first? (kind.opening ++ cs) =
      (untilClose a b cs).map fun r => (kind, r.1, r.2) := by
  cases kind with
  | text => exact absurd rfl hkind
  | comment | output | tag => exact ⟨_, _, rfl, rfl⟩

lemma first?_of_not_opens {cs : List Char} (hne : cs ≠ []) (h : ¬ Opens cs) :
    first? cs = some (.text, textRun cs) := by
  have hopens : opens cs = false := by simpa using mt opens_iff.1 h
  match cs with
  | [c] => simp [first?, textRun, hopens]
  | c :: d :: rest =>
    have hrun : startText c (d :: rest) = (.text, textRun (c :: d :: rest)) := by
      rw [textRun, hopens]
      rfl
    rw [first?]
    split
    next hc =>
      split
      next hd =>
        rw [opens, hc, hd] at hopens
        cases hopens
      next => rw [hrun]
    next => rw [hrun]

lemma first?_eq_some_iff {cs rest : List Char} {kind : SegmentKind} {body : List Char} :
    first? cs = some (kind, body, rest) ↔ Cut cs kind body rest := by
  constructor
  · intro h
    have hne : cs ≠ [] := by
      rintro rfl
      cases h
    by_cases hopens : Opens cs
    · obtain ⟨kind', hkind, tail, rfl⟩ := hopens
      obtain ⟨a, b, hclosing, hfirst⟩ := first?_of_opening hkind tail
      rw [hfirst, Option.map_eq_some_iff] at h
      obtain ⟨r, hr, h⟩ := h
      cases h
      have hclose : ¬ kind.closing <:+: r.1 ++ kind.closing.dropLast := by
        simpa [hclosing] using notInfix_of_untilClose hr
      have hcut := Cut.delimited r.2 hkind hclose
      rw [source_eq, hclosing] at hcut
      rw [← untilClose_append hr]
      simpa using hcut
    · rw [first?_of_not_opens hne hopens] at h
      obtain ⟨rfl, hrun⟩ : SegmentKind.text = kind ∧ textRun cs = (body, rest) := by simpa using h
      have happend := textRun_append cs
      obtain ⟨hplain, hrest⟩ := plain_textRun cs
      rw [hrun] at happend hplain hrest
      subst happend
      refine .text ?_ hplain hrest
      rintro rfl
      exact hopens (hrest.resolve_left hne)
  · rintro (⟨hne, hplain, hrest⟩ | ⟨rest, hkind, hclose⟩)
    · have hopens : ¬ Opens (body ++ rest) := by
        cases body with
        | nil => exact absurd rfl hne
        | cons c body =>
          rw [List.cons_append, ← opens_take]
          exact (plain_cons_iff.1 hplain).1
      rw [first?_of_not_opens (by simp [hne]) hopens, textRun_append_eq hplain hrest]
    · obtain ⟨a, b, hclosing, hfirst⟩ := first?_of_opening hkind (body ++ kind.closing ++ rest)
      rw [hclosing] at hclose
      have hsource : source kind body ++ rest = kind.opening ++ (body ++ kind.closing ++ rest) := by
        rw [source_eq, List.append_assoc]
      rw [hsource, hfirst, hclosing, List.append_assoc]
      exact congrArg _ (untilClose_of_notInfix rest hclose)

lemma first?_eq_none_iff {cs : List Char} (hne : cs ≠ []) : first? cs = none ↔ Unclosed cs := by
  constructor
  · intro h
    by_cases hopens : Opens cs
    · obtain ⟨kind, hkind, tail, rfl⟩ := hopens
      obtain ⟨a, b, hclosing, hfirst⟩ := first?_of_opening hkind tail
      rw [hfirst, Option.map_eq_none_iff, untilClose_eq_none_iff, ← hclosing] at h
      exact ⟨kind, tail, hkind, rfl, h⟩
    · rw [first?_of_not_opens hne hopens] at h
      cases h
  · rintro ⟨kind, tail, hkind, rfl, h⟩
    obtain ⟨a, b, hclosing, hfirst⟩ := first?_of_opening hkind tail
    rw [hfirst, Option.map_eq_none_iff, untilClose_eq_none_iff, ← hclosing]
    exact h

/-! ### Whole templates -/

/-- **Cutting a template**, of which the first character is byte `offset` on line `line`, into
pieces, up to what is left. -/
inductive Cuts (left : List Char) : Nat → Nat → List Char → List Segment → Prop
  | stop (offset line : Nat) : Cuts left offset line left []
  | piece {offset line : Nat} {cs rest : List Char} {kind : SegmentKind} {body : List Char}
      {segs : List Segment} : Cut cs kind body rest →
      Cuts left (offset + bytes (source kind body)) (line + newlines (source kind body)) rest segs →
      Cuts left offset line cs (⟨kind, body, offset, line⟩ :: segs)

/-- The sources of the pieces, one after the other. -/
def sources (segs : List Segment) : List Char :=
  segs.flatMap fun s => source s.kind s.body

@[simp] lemma sources_nil : sources [] = [] := rfl

@[simp] lemma sources_cons (s : Segment) (segs : List Segment) :
    sources (s :: segs) = source s.kind s.body ++ sources segs :=
  List.flatMap_cons

@[simp] lemma sources_append (us vs : List Segment) :
    sources (us ++ vs) = sources us ++ sources vs :=
  List.flatMap_append

variable {cs left : List Char} {segs : List Segment} {offset line : Nat}

/-- Cutting loses nothing. -/
lemma Cuts.sources_append (h : Cuts left offset line cs segs) : sources segs ++ left = cs := by
  induction h with
  | stop => rfl
  | piece hcut _ ih =>
    rw [sources_cons, List.append_assoc]
    exact (congrArg _ ih).trans (first?_append (first?_eq_some_iff.2 hcut))

lemma segments_of_cut {rest body : List Char} {kind : SegmentKind} (h : Cut cs kind body rest) :
    segments cs offset line = (segments rest (offset + bytes (source kind body))
      (line + newlines (source kind body))).map (⟨kind, body, offset, line⟩ :: ·) := by
  have hfirst := first?_eq_some_iff.2 h
  cases cs with
  | nil => cases hfirst
  | cons c cs =>
    rw [segments]
    split
    next hnone => cases hfirst.symm.trans hnone
    next hsome =>
      cases hfirst.symm.trans hsome
      dsimp only
      split
      next hrest => rw [hrest]; rfl
      next hrest => rw [hrest]; rfl

lemma segments_of_unclosed (h : Unclosed left) :
    segments left offset line = .error ⟨.unclosedDelimiter, line, ⟨offset, offset⟩, []⟩ := by
  cases left with
  | nil => exact absurd rfl h.ne_nil
  | cons c cs =>
    rw [segments]
    split
    next => rfl
    next hsome => cases ((first?_eq_none_iff (List.cons_ne_nil c cs)).2 h).symm.trans hsome

/-- The pieces that have been cut come first. -/
lemma Cuts.segments_eq (h : Cuts left offset line cs segs) :
    segments cs offset line = (segments left (offset + bytes (sources segs))
      (line + newlines (sources segs))).map (segs ++ ·) := by
  induction h with
  | stop offset line =>
    cases hleft : segments left offset line <;>
      simp [newlines, hleft, Except.map]
  | piece hcut _ ih =>
    rw [segments_of_cut hcut, ih, sources_cons, Text.bytes_append, Text.newlines_append,
      ← Nat.add_assoc, ← Nat.add_assoc]
    cases segments left _ _ <;> rfl

/-- A template can be cut to its end or up to an unclosed delimiter. -/
lemma cuts_or_unclosed : ∀ (cs : List Char) (offset line : Nat),
    (∃ segs, Cuts [] offset line cs segs) ∨
      ∃ segs left, Cuts left offset line cs segs ∧ Unclosed left
  | [], offset, line => .inl ⟨[], .stop offset line⟩
  | c :: cs, offset, line => by
    cases hfirst : first? (c :: cs) with
    | none =>
      have hunclosed := (first?_eq_none_iff (List.cons_ne_nil c cs)).1 hfirst
      exact .inr ⟨[], c :: cs, .stop offset line, hunclosed⟩
    | some piece =>
      obtain ⟨kind, body, rest⟩ := piece
      have hcut := first?_eq_some_iff.1 hfirst
      obtain ⟨segs, hrest⟩ | ⟨segs, left, hrest, hleft⟩ :=
        cuts_or_unclosed rest (offset + bytes (source kind body))
          (line + newlines (source kind body))
      · exact .inl ⟨_, .piece hcut hrest⟩
      · exact .inr ⟨_, left, .piece hcut hrest, hleft⟩
termination_by cs => cs.length
decreasing_by exact first?_length hfirst

lemma segments_eq_ok_iff :
    segments cs offset line = .ok segs ↔ Cuts [] offset line cs segs := by
  have hok {segs : List Segment} (h : Cuts [] offset line cs segs) :
      segments cs offset line = .ok segs := by
    rw [h.segments_eq, segments]
    simp [Except.map]
  refine ⟨fun h => ?_, hok⟩
  obtain ⟨segs', hcuts⟩ | ⟨segs', left, hcuts, hleft⟩ := cuts_or_unclosed cs offset line
  · cases h.symm.trans (hok hcuts)
    exact hcuts
  · rw [hcuts.segments_eq, segments_of_unclosed hleft] at h
    cases h

/-- What is left can be cut in turn. -/
lemma Cuts.append {rest : List Char} {more : List Segment} (h : Cuts left offset line cs segs)
    (h' : Cuts rest (offset + bytes (sources segs)) (line + newlines (sources segs)) left more) :
    Cuts rest offset line cs (segs ++ more) := by
  induction h with
  | stop => simpa [newlines] using h'
  | piece hcut _ ih =>
    rw [sources_cons, Text.bytes_append, Text.newlines_append, ← Nat.add_assoc,
      ← Nat.add_assoc] at h'
    exact .piece hcut (ih h')

/-- Pieces are cut one after the other. -/
lemma Cuts.split {first more : List Segment} (h : Cuts left offset line cs (first ++ more)) :
    ∃ mid, Cuts mid offset line cs first ∧
      Cuts left (offset + bytes (sources first)) (line + newlines (sources first)) mid more := by
  induction first generalizing offset line cs with
  | nil => exact ⟨cs, .stop offset line, by simpa [newlines] using h⟩
  | cons s first ih =>
    cases h with
    | piece hcut hrest =>
      obtain ⟨mid, hfirst, hmore⟩ := ih hrest
      rw [sources_cons, Text.bytes_append, Text.newlines_append, ← Nat.add_assoc, ← Nat.add_assoc]
      exact ⟨mid, .piece hcut hfirst, hmore⟩

/-! ### Places of the pieces -/

/-- The pieces stand one behind the other, from the given offset on. -/
def Placed : Nat → List Segment → Prop
  | _, [] => True
  | offset, s :: segs => s.start = offset ∧ Placed (offset + bytes (source s.kind s.body)) segs

lemma Cuts.placed (h : Cuts left offset line cs segs) : Placed offset segs := by
  induction h with
  | stop => trivial
  | piece _ _ ih => exact ⟨rfl, ih⟩

lemma placed_append_iff {us vs : List Segment} :
    Placed offset (us ++ vs) ↔ Placed offset us ∧ Placed (offset + bytes (sources us)) vs := by
  induction us generalizing offset with
  | nil => simp [Placed]
  | cons s us ih => simp [Placed, ih, and_assoc, Nat.add_assoc]

lemma Cuts.plain (h : Cuts left offset line cs segs) :
    ∀ s ∈ segs, s.kind = .text → Plain s.body := by
  induction h with
  | stop => simp
  | piece hcut _ ih =>
    rw [List.forall_mem_cons]
    refine ⟨fun hkind => ?_, ih⟩
    cases hcut with
    | text _ hplain =>
      intro kind hk hinside
      exact hplain kind hk (hinside.trans (List.prefix_append _ _).isInfix)
    | delimited _ hk => exact absurd hkind hk

/-- A piece has no closing delimiter of its kind in it. -/
lemma Cuts.closed (h : Cuts left offset line cs segs) :
    ∀ s ∈ segs, s.kind ≠ .text → ¬ s.kind.closing <:+: s.body ++ s.kind.closing.dropLast := by
  induction h with
  | stop => simp
  | piece hcut _ ih =>
    rw [List.forall_mem_cons]
    refine ⟨fun hkind => ?_, ih⟩
    cases hcut with
    | text => exact absurd rfl hkind
    | delimited _ _ hclose => exact hclose

/-- A piece covers its source. -/
lemma span_eq (s : Segment) : s.span = ⟨s.start, s.start + bytes (source s.kind s.body)⟩ := by
  have hopening : bytes s.kind.opening + bytes s.kind.closing =
      if s.kind = .text then 0 else 4 := by
    cases s.kind <;> rfl
  rw [span, source_eq, Text.bytes_append, Text.bytes_append, ← hopening]
  congr 1
  omega

/-- From the first piece to the last they cover their sources. -/
lemma Placed.join_eq {s t : Segment} {inner : List Segment}
    (h : Placed offset (s :: (inner ++ [t]))) :
    s.span.join t.span = ⟨offset, offset + bytes (sources (s :: (inner ++ [t])))⟩ := by
  obtain ⟨hs, h⟩ := h
  obtain ⟨_, ht, _⟩ := placed_append_iff.1 h
  rw [span_eq, span_eq, Text.Span.join, hs, ht, sources_cons, sources_append, sources_cons,
    sources_nil, List.append_nil, Text.bytes_append, Text.bytes_append]
  congr 1 <;> dsimp only <;> omega

lemma Placed.join_eq_ends {s t : Segment} {inner : List Segment}
    (h : Placed offset (s :: (inner ++ [t]))) :
    s.span.join t.span = ⟨s.span.start, t.span.stop⟩ := by
  rw [h.join_eq]
  obtain ⟨hs, h⟩ := h
  obtain ⟨_, ht, _⟩ := placed_append_iff.1 h
  rw [span_eq, span_eq, hs, ht]
  congr 1
  simp [Nat.add_assoc]

/-- **The pieces stand in the template**, one behind the other, and each ends where it is closed. -/
structure Stand (template : List Char) (segs : List Segment) : Prop where
  place : ∃ before after, template = before ++ (sources segs ++ after) ∧ Placed (bytes before) segs
  closed : ∀ s ∈ segs, s.kind ≠ .text → ¬ s.kind.closing <:+: s.body ++ s.kind.closing.dropLast

lemma Cuts.stand (h : Cuts [] 0 line cs segs) : Stand cs segs :=
  ⟨⟨[], [], by rw [← h.sources_append]; rfl, h.placed⟩, h.closed⟩

lemma Stand.of_append {template : List Char} {us vs : List Segment}
    (h : Stand template (us ++ vs)) : Stand template us ∧ Stand template vs := by
  obtain ⟨⟨before, after, rfl, hplaced⟩, hclosed⟩ := h
  obtain ⟨hus, hvs⟩ := placed_append_iff.1 hplaced
  obtain ⟨husclosed, hvsclosed⟩ := List.forall_mem_append.1 hclosed
  rw [← Text.bytes_append] at hvs
  exact ⟨⟨⟨before, sources vs ++ after, by simp, hus⟩, husclosed⟩,
    ⟨⟨before ++ sources us, after, by simp, hvs⟩, hvsclosed⟩⟩

lemma Stand.of_cons {template : List Char} {s : Segment} {segs : List Segment}
    (h : Stand template (s :: segs)) : Stand template [s] ∧ Stand template segs :=
  of_append (List.singleton_append ▸ h)

lemma Stand.slice_eq {template : List Char} {s : Segment} (h : Stand template [s]) :
    Text.slice template s.span = source s.kind s.body := by
  obtain ⟨⟨before, after, rfl, hplaced⟩, _⟩ := h
  rw [span_eq, hplaced.1, sources_cons, sources_nil, List.append_nil, Text.slice_append]

lemma Stand.slice_join_eq {template : List Char} {s t : Segment} {inner : List Segment}
    (h : Stand template (s :: (inner ++ [t]))) :
    Text.slice template (s.span.join t.span) = sources (s :: (inner ++ [t])) := by
  obtain ⟨⟨before, after, rfl, hplaced⟩, _⟩ := h
  rw [hplaced.join_eq, Text.slice_append]

end Segment

end Stencil
