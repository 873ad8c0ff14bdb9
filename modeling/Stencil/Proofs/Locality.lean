import Stencil.Proofs.Grammar.Template
import Stencil.Proofs.Placeless

/-!
Reading is local. A template is read the same behind another one, only that its nodes stand further
back (`Node.shift`).

* Pieces are cut the same wherever a template starts (`Segment.Cuts.shift`), and what makes up nodes
  makes up the same nodes in another place (`Node.Reads.shift`), since tags are placeless.
* Text added to a template changes none of its pieces but the last (`Segment.Cuts.extend`). The last
  one stays as it is too (`Segment.Cuts.apart`), unless it is a text and the text that is added
  starts with a text; then the two become one (`Segment.Cuts.joined`). No opening delimiter comes to
  stand on the seam since the first template does not end in `{`.

The main result is `read_append`.
-/

namespace Stencil

open Text (Span bytes newlines)

/-! ### Further back -/

/-- The span as far back as `offset` bytes. -/
def Text.Span.shift (offset : Nat) (s : Span) : Span :=
  ⟨offset + s.start, offset + s.stop⟩

lemma Text.Span.shift_join (offset : Nat) (s t : Span) :
    (s.join t).shift offset = (s.shift offset).join (t.shift offset) := by
  simp [shift, join, Nat.add_min_add_left, Nat.add_max_add_left]

/-- The segment as far back as the bytes and lines. -/
def Segment.shift (offset line : Nat) (s : Segment) : Segment :=
  { s with start := offset + s.start, line := line + s.line }

/-- The head of a tag as far back as the bytes and lines. -/
def TagHead.shift (offset line : Nat) (head : TagHead) : TagHead :=
  { head with line := line + head.line, span := head.span.shift offset }

mutual

/-- The node as far back as the bytes and lines. -/
def Node.shift (offset line : Nat) : Node → Node
  | .text s => .text s
  | .output o => .output { o with line := line + o.line, span := o.span.shift offset }
  | .tag head content => .tag (head.shift offset line) (shiftAll offset line content)

/-- The nodes as far back as the bytes and lines. -/
def shiftAll (offset line : Nat) : List Node → List Node
  | [] => []
  | n :: rest => n.shift offset line :: shiftAll offset line rest

end

/-! ### The same pieces and nodes in another place -/

namespace Segment

variable {tags : TagTable} {s : Segment}

lemma span_shift (offset line : Nat) (s : Segment) :
    (s.shift offset line).span = s.span.shift offset := by
  rw [span_eq, span_eq, Span.shift, ← Nat.add_assoc]
  rfl

lemma Cuts.shift {left cs : List Char} {segs : List Segment} {offset line : Nat}
    (h : Cuts left offset line cs segs) (b l : Nat) :
    Cuts left (b + offset) (l + line) cs (segs.map (Segment.shift b l)) := by
  induction h with
  | stop offset line => exact .stop _ _
  | piece hcut _ ih =>
    rw [← Nat.add_assoc, ← Nat.add_assoc] at ih
    exact .piece hcut ih

lemma Outputs.shift {o : Output} (h : s.Outputs o) (b l : Nat) :
    (s.shift b l).Outputs { o with line := l + o.line, span := o.span.shift b } where
  kind := h.kind
  body := h.body
  expr := by
    obtain ⟨ts, hts, he⟩ := h.expr
    obtain ⟨ts', hts', halike⟩ :=
      Token.tokenize_alike hts (s.shift b l).bodyStart (s.shift b l).line
    exact ⟨ts', hts', Expr.ofTokens_alike he halike⟩
  source := h.source
  line := congrArg (l + ·) h.line
  span := by rw [span_shift, h.span]

lemma Heads.shift {reader : TagReader} {head : TagHead} (htags : tags.Placeless)
    (h : s.Heads tags reader head) (b l : Nat) :
    (s.shift b l).Heads tags reader (head.shift b l) where
  args := by
    obtain ⟨lead, word, rest, ts, hw, hname, hts, hargs⟩ := h.args
    obtain ⟨ts', hts', halike⟩ := Token.tokenize_alike hts
      ((s.shift b l).bodyStart + bytes (lead ++ word))
      ((s.shift b l).line + newlines (lead ++ word))
    exact ⟨lead, word, rest, ts', ⟨hw.kind, hw.lead, hw.word, hw.rest, hw.nonempty⟩, hname, hts',
      htags h.known _ hargs halike⟩
  ended := h.ended
  known := h.known
  line := congrArg (l + ·) h.line
  span := by rw [span_shift, ← h.span, TagHead.shift]

lemma Ends.shift {name : String} (h : s.Ends tags name) (b l : Nat) :
    (s.shift b l).Ends tags name where
  word := by
    obtain ⟨lead, word, rest, hw, hrest, hended⟩ := h.word
    exact ⟨lead, word, rest, ⟨hw.kind, hw.lead, hw.word, hw.rest, hw.nonempty⟩, hrest, hended⟩

end Segment

/-- What makes up nodes makes up the same nodes further back. -/
lemma Node.Reads.shift {tags : TagTable} {segs : List Segment} {ns : List Node}
    (htags : tags.Placeless) (h : Reads tags segs ns) (b l : Nat) :
    Reads tags (segs.map (Segment.shift b l)) (shiftAll b l ns) := by
  induction h with
  | nil => exact .nil
  | text hs _ ih => exact .text hs ih
  | comment hs _ ih => exact .comment hs ih
  | output ho _ ih => exact .output (ho.shift b l) ih
  | tag hhead hend _ ih => exact .tag (hhead.shift htags b l) hend ih
  | block hhead hend _ hends _ ihinner ih =>
    have hblock := Reads.block (hhead.shift htags b l) hend ihinner (hends.shift b l) ih
    rw [List.map_cons, List.map_append, List.map_cons, shiftAll, Node.shift]
    rw [Segment.span_shift] at hblock
    simpa [TagHead.shift, Span.shift_join] using hblock

/-! ### The seam -/

namespace Segment

variable {cs us vs left body rest more : List Char} {kind : SegmentKind} {segs : List Segment}
  {offset line : Nat}

lemma opens_append (h : Opens cs) (more : List Char) : Opens (cs ++ more) := by
  obtain ⟨kind, hkind, hfront⟩ := h
  exact ⟨kind, hkind, hfront.trans (List.prefix_append _ _)⟩

/-- A text that does not end in `{` forms no opening delimiter with what comes behind it. -/
lemma Plain.append (hus : Plain us) (hvs : Plain vs) (hlast : us.getLast? ≠ some '\x7b') :
    Plain (us ++ vs) := by
  induction us with
  | nil => exact hvs
  | cons c us ih =>
    rw [plain_cons_iff] at hus
    rw [List.cons_append, plain_cons_iff]
    cases us with
    | nil =>
      refine ⟨fun hopens => hlast ?_, hvs⟩
      rw [(opens_cons_iff.1 hopens).1]
      rfl
    | cons d us =>
      refine ⟨fun hopens => hus.1 ?_, ih hus.2 (by simpa using hlast)⟩
      rw [opens_cons_iff] at hopens ⊢
      exact hopens

lemma Cut.opens (h : Cut cs kind body rest) (hkind : kind ≠ .text) : Opens cs := by
  cases h with
  | text => exact absurd rfl hkind
  | delimited rest hkind =>
    rw [source_eq, List.append_assoc]
    exact ⟨kind, hkind, List.prefix_append _ _⟩

/-- A piece that does not reach to the end of the template is cut the same if the template goes on,
and so is one that has a closing delimiter. -/
lemma Cut.extend (h : Cut cs kind body rest) (hrest : rest ≠ [] ∨ kind ≠ .text)
    (more : List Char) : Cut (cs ++ more) kind body (rest ++ more) := by
  cases h with
  | text hne hplain hopens =>
    have hrest := hrest.resolve_right (not_not_intro rfl)
    rw [List.append_assoc]
    refine .text hne ?_ (.inr (opens_append (hopens.resolve_left hrest) more))
    rwa [List.take_append_of_le_length (List.length_pos_iff.2 hrest)]
  | delimited rest hkind hclose =>
    rw [List.append_assoc]
    exact .delimited _ hkind hclose

lemma Cut.of_text (h : Cut cs .text body rest) :
    cs = body ++ rest ∧ body ≠ [] ∧ Plain (body ++ rest.take 1) ∧ (rest = [] ∨ Opens rest) := by
  cases h with
  | text hne hplain hrest => exact ⟨rfl, hne, hplain, hrest⟩
  | delimited _ hkind => exact absurd rfl hkind

/-- A text stays as it is if no text comes behind it. -/
lemma Cut.text_stop (h : Cut cs .text body []) (hlast : cs.getLast? ≠ some '\x7b')
    (hmore : more = [] ∨ Opens more) : Cut (cs ++ more) .text body more := by
  obtain ⟨rfl, hne, hplain, _⟩ := h.of_text
  simp only [List.take_nil, List.append_nil] at hplain hlast ⊢
  have hfront : Plain (more.take 1) := plain_of_length (by grind)
  exact .text hne (hplain.append hfront hlast) hmore

/-- Two texts become one. -/
lemma Cut.text_join {body' : List Char} (h : Cut cs .text body []) (h' : Cut more .text body' rest)
    (hlast : cs.getLast? ≠ some '\x7b') : Cut (cs ++ more) .text (body ++ body') rest := by
  obtain ⟨rfl, hne, hplain, _⟩ := h.of_text
  obtain ⟨rfl, _, hplain', hrest⟩ := h'.of_text
  simp only [List.take_nil, List.append_nil] at hplain hlast ⊢
  rw [← List.append_assoc]
  refine .text (by simp [hne]) ?_ hrest
  rw [List.append_assoc]
  exact hplain.append hplain' hlast

/-- What is left changes no piece that has been cut before. -/
lemma Cuts.extend (h : Cuts left offset line cs segs) (hleft : left ≠ []) (more : List Char) :
    Cuts (left ++ more) offset line (cs ++ more) segs := by
  induction h with
  | stop => exact .stop _ _
  | piece hcut hrest ih =>
    refine .piece (hcut.extend (.inl ?_) more) ih
    rw [← hrest.sources_append]
    simp [hleft]

/-- The last piece takes all that is left. -/
lemma Cuts.last {x : Segment} (h : Cuts [] offset line cs (segs ++ [x])) :
    ∃ last, Cuts last offset line cs segs ∧ Cut last x.kind x.body [] ∧ last ≠ [] ∧
      x = ⟨x.kind, x.body, offset + bytes (sources segs), line + newlines (sources segs)⟩ := by
  obtain ⟨last, hsegs, hlast⟩ := h.split
  cases hlast with
  | piece hcut hstop =>
    cases hstop
    refine ⟨last, hsegs, hcut, ?_, rfl⟩
    rintro rfl
    cases first?_eq_some_iff.2 hcut

/-- A text at the end of a template that does not end in `{` does not either. -/
lemma Cuts.last_ne {last : List Char} (h : Cuts last offset line cs segs) (hne : last ≠ [])
    (hlast : cs.getLast? ≠ some '\x7b') : last.getLast? ≠ some '\x7b' := by
  rwa [← h.sources_append, List.getLast?_append_of_ne_nil _ hne] at hlast

/-- The pieces are the same before what is added behind them, unless two texts meet. -/
lemma Cuts.before (h : Cuts [] offset line cs segs) (hlast : cs.getLast? ≠ some '\x7b')
    (hmore : (∃ s ∈ segs.getLast?, s.kind = .text) → more = [] ∨ Opens more) :
    Cuts more offset line (cs ++ more) segs := by
  obtain rfl | ⟨init, x, hsegs⟩ := segs.eq_nil_or_concat
  · cases h
    exact .stop offset line
  rw [List.concat_eq_append] at hsegs
  subst hsegs
  obtain ⟨last, hinit, hcut, hne, hx⟩ := h.last
  have hextend : Cut (last ++ more) x.kind x.body more := by
    by_cases htext : x.kind = .text
    · rw [htext] at hcut ⊢
      exact hcut.text_stop (hinit.last_ne hne hlast) (hmore ⟨x, by simp, htext⟩)
    · exact hcut.extend (.inr htext) more
  refine (hinit.extend hne more).append ?_
  rw [hx]
  exact .piece hextend (.stop _ _)

/-- Where no two texts meet the pieces of the second template come behind those of the first. -/
lemma Cuts.apart {segs' : List Segment} (h : Cuts [] 0 1 us segs) (h' : Cuts [] 0 1 vs segs')
    (hlast : us.getLast? ≠ some '\x7b')
    (hseam : (∃ s ∈ segs.getLast?, s.kind = .text) → ∀ s ∈ segs'.head?, s.kind ≠ .text) :
    Cuts [] 0 1 (us ++ vs) (segs ++ segs'.map (Segment.shift (bytes us) (newlines us))) := by
  have hopens (hends : ∃ s ∈ segs.getLast?, s.kind = .text) : vs = [] ∨ Opens vs := by
    cases h' with
    | stop => exact .inl rfl
    | piece hcut _ => exact .inr (hcut.opens (hseam hends _ rfl))
  have hsources : sources segs = us := by simpa using h.sources_append
  refine (h.before hlast hopens).append ?_
  rw [hsources, Nat.zero_add, Nat.add_comm 1]
  exact h'.shift (bytes us) (newlines us)

/-- Where two texts meet they become one piece. -/
lemma Cuts.joined {segs' : List Segment} {x y : Segment} (h : Cuts [] 0 1 us (segs ++ [x]))
    (h' : Cuts [] 0 1 vs (y :: segs')) (hx : x.kind = .text) (hy : y.kind = .text)
    (hlast : us.getLast? ≠ some '\x7b') :
    Cuts [] 0 1 (us ++ vs) (segs ++ { x with body := x.body ++ y.body } ::
      segs'.map (Segment.shift (bytes us) (newlines us))) := by
  obtain ⟨last, hsegs, hcut, hne, hplace⟩ := h.last
  cases h' with
  | @piece _ _ _ rest kind body _ hcut' hrest =>
    dsimp only at hy
    subst hy
    rw [hx] at hcut hplace
    have hus : us = sources segs ++ x.body := by
      rw [← hsegs.sources_append, hcut.of_text.1, List.append_nil]
    have hbytes : 0 + bytes (sources segs) + bytes (source .text (x.body ++ body)) =
        bytes us + (0 + bytes (source .text body)) := by
      simp [hus, source, Nat.add_assoc]
    have hlines : 1 + newlines (sources segs) + newlines (source .text (x.body ++ body)) =
        newlines us + (1 + newlines (source .text body)) := by
      simp only [hus, source, Text.newlines_append]
      omega
    refine (hsegs.extend hne vs).append ?_
    rw [hplace]
    refine .piece (hcut.text_join hcut' (hsegs.last_ne hne hlast)) ?_
    rw [hbytes, hlines]
    exact hrest.shift (bytes us) (newlines us)

end Segment

/-! ### Templates one behind the other -/

namespace Node

variable {tags : TagTable}

/-- What a text at the end makes up is the last node. -/
lemma Reads.of_text_last {segs : List Segment} {x : Segment} {ns : List Node}
    (h : Reads tags (segs ++ [x]) ns) (hx : x.kind = .text) :
    ∃ before, ns = before ++ [.text (String.ofList x.body)] ∧ Reads tags segs before := by
  have hfold := h.foldlM_eq .empty
  rw [List.foldlM_append] at hfold
  obtain ⟨b, hb, hfold⟩ := ok_of_bind hfold
  rw [Builder.foldlM_add (Builder.add_text hx)] at hfold
  obtain ⟨hnodes, houter⟩ : b.nodes ++ [.text (String.ofList x.body)] = ns ∧ b.outer = [] := by
    simpa [Builder.push, Builder.empty] using Except.ok.inj hfold
  refine ⟨b.nodes, hnodes.symm, reads_of_foldlM hb ?_⟩
  rw [Builder.finish, houter]

lemma Reads.of_text_first {segs : List Segment} {y : Segment} {ns : List Node}
    (h : Reads tags (y :: segs) ns) (hy : y.kind = .text) :
    ∃ after, ns = .text (String.ofList y.body) :: after ∧ Reads tags segs after := by
  cases h with
  | text _ hrest => exact ⟨_, rfl, hrest⟩
  | comment hkind => cases hy.symm.trans hkind
  | output ho => cases hy.symm.trans ho.kind
  | tag hhead | block hhead => cases hy.symm.trans hhead.kind

end Node

/-- The template ends with a piece of text. -/
def EndsInText (source : String) : Prop :=
  ∃ segs, Segment.segments source.toList 0 1 = .ok segs ∧ ∃ s ∈ segs.getLast?, s.kind = .text

/-- The template starts with a piece of text. -/
def StartsInText (source : String) : Prop :=
  ∃ segs, Segment.segments source.toList 0 1 = .ok segs ∧ ∃ s ∈ segs.head?, s.kind = .text

/-- **Reading is local.** The tags of the language are placeless. With placeless tags, if two
templates can be read and the first does not end in an opening brace, the one followed by the other
can be read: as the nodes of the first and those of the second, further back by the bytes and lines
of the first; only where the first ends with a text and the second starts with one these two are a
single node. -/
theorem read_append : (∀ tags : TagSet, tags.table.Placeless) ∧
    ∀ (tags : TagTable) (first second : String) (ns ms : List Node), tags.Placeless →
      Node.read tags first = .ok ns → Node.read tags second = .ok ms →
      first.toList.getLast? ≠ some '\x7b' →
      (¬ (EndsInText first ∧ StartsInText second) →
        Node.read tags (first ++ second) =
          .ok (ns ++ shiftAll (bytes first.toList) (newlines first.toList) ms)) ∧
      (EndsInText first ∧ StartsInText second → ∃ before a b after,
        ns = before ++ [.text a] ∧ ms = .text b :: after ∧
        Node.read tags (first ++ second) = .ok (before ++ .text (a ++ b) ::
          shiftAll (bytes first.toList) (newlines first.toList) after)) := by
  refine ⟨TagSet.placeless_table, fun tags first second ns ms htags hfirst hsecond hlast => ?_⟩
  obtain ⟨segs, hcuts, hreads⟩ := Node.read_eq_ok_iff.1 hfirst
  obtain ⟨segs', hcuts', hreads'⟩ := Node.read_eq_ok_iff.1 hsecond
  have hends := Segment.segments_eq_ok_iff.2 hcuts
  have hstarts := Segment.segments_eq_ok_iff.2 hcuts'
  refine ⟨fun hseam => ?_, fun ⟨⟨_, hsegs, x, hx, hxtext⟩, ⟨_, hsegs', y, hy, hytext⟩⟩ => ?_⟩
  · rw [Node.read_eq_ok_iff, String.toList_append]
    refine ⟨_, hcuts.apart hcuts' hlast fun hx y hy hytext => ?_,
      hreads.append (hreads'.shift htags _ _)⟩
    exact hseam ⟨⟨segs, hends, hx⟩, ⟨segs', hstarts, y, hy, hytext⟩⟩
  · cases hends.symm.trans hsegs
    cases hstarts.symm.trans hsegs'
    obtain ⟨init, rfl⟩ := List.getLast?_eq_some_iff.1 hx
    obtain ⟨tail, rfl⟩ := List.head?_eq_some_iff.1 hy
    obtain ⟨before, rfl, hinit⟩ := hreads.of_text_last hxtext
    obtain ⟨after, rfl, htail⟩ := hreads'.of_text_first hytext
    refine ⟨before, _, _, after, rfl, rfl, ?_⟩
    rw [Node.read_eq_ok_iff, String.toList_append, ← String.ofList_append]
    exact ⟨_, hcuts.joined hcuts' hxtext hytext hlast,
      hinit.append (.text hxtext (htail.shift htags _ _))⟩

namespace Seam

/-- `{{ x }}`, and a text with a line end in it. -/
def first : String := "\x7b\x7b x \x7d\x7d\nhi "

/-- A text, and `{{ y }}`. -/
def second : String := "you \x7b\x7b y \x7d\x7d"

lemma first_segments : Segment.segments first.toList 0 1 =
    .ok [⟨.output, " x ".toList, 0, 1⟩, ⟨.text, "\nhi ".toList, 7, 1⟩] := by
  decide +kernel

lemma second_segments : Segment.segments second.toList 0 1 =
    .ok [⟨.text, "you ".toList, 0, 1⟩, ⟨.output, " y ".toList, 4, 1⟩] := by
  decide +kernel

lemma first_read : Node.read TagTable.standard first =
    .ok [.output ⟨.var "x", "x", 1, ⟨0, 7⟩⟩, .text "\nhi "] := by
  refine Node.ofSource_of _ first_segments ?_
  rw [Builder.foldlM_add (Builder.add_output
      [⟨.blank, " ", ⟨2, 3⟩, 1⟩, ⟨.path, "x", ⟨3, 4⟩, 1⟩, ⟨.blank, " ", ⟨4, 5⟩, 1⟩] (.var "x")
      rfl (by cbv) (by decide +kernel) (by cbv)),
    Builder.foldlM_add (Builder.add_text rfl)]
  rfl

lemma second_read : Node.read TagTable.standard second =
    .ok [.text "you ", .output ⟨.var "y", "y", 1, ⟨4, 11⟩⟩] := by
  refine Node.ofSource_of _ second_segments ?_
  rw [Builder.foldlM_add (Builder.add_text rfl),
    Builder.foldlM_add (Builder.add_output
      [⟨.blank, " ", ⟨6, 7⟩, 1⟩, ⟨.path, "y", ⟨7, 8⟩, 1⟩, ⟨.blank, " ", ⟨8, 9⟩, 1⟩] (.var "y")
      rfl (by cbv) (by decide +kernel) (by cbv))]
  rfl

/-- The two texts are one, and the second output stands on the second line. -/
theorem joined_read : Node.read TagTable.standard (first ++ second) =
    .ok [.output ⟨.var "x", "x", 1, ⟨0, 7⟩⟩, .text "\nhi you ",
      .output ⟨.var "y", "y", 2, ⟨15, 22⟩⟩] := by
  have hends : EndsInText first := ⟨_, first_segments, _, rfl, rfl⟩
  have hstarts : StartsInText second := ⟨_, second_segments, _, rfl, rfl⟩
  obtain ⟨before, a, b, after, hns, hms, hread⟩ := (read_append.2 _ _ _ _ _
    (read_append.1 .standard) first_read second_read (by decide)).2 ⟨hends, hstarts⟩
  have hnodes : [Node.output ⟨.var "x", "x", 1, ⟨0, 7⟩⟩] ++ [.text "\nhi "] = before ++ [.text a] :=
    hns
  obtain ⟨rfl, ha⟩ := List.append_inj' hnodes rfl
  cases ha
  cases hms
  exact hread

end Seam

end Stencil
