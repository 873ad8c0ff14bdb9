import Stencil.Proofs.Number.Text
import Stencil.Proofs.Script.Readability

/-!
The script tells expressions apart. An expression of a compiled program is in terms of placed
names, and the numbers in it have been read; if they are finite, their texts tell them apart
(`Script.numbersApart`). So the texts of expressions can be read in one way only
(`Script.expressions_apart`).
-/

namespace Stencil

namespace Expr

/-! ### Parts of expressions -/

lemma mem_parts_self (e : Expr) : e ∈ e.parts := by
  rw [parts.eq_def]
  exact List.mem_cons_self

lemma itemParts_eq_flatMap (es : List Expr) : itemParts es = es.flatMap parts := by
  induction es with
  | nil => rfl
  | cons e rest ih => rw [itemParts, ih, List.flatMap_cons]

lemma entryParts_eq_flatMap (es : List (String × Expr)) :
    entryParts es = es.flatMap fun p => p.2.parts := by
  induction es with
  | nil => rfl
  | cons p rest ih =>
    obtain ⟨k, e⟩ := p
    rw [entryParts, ih, List.flatMap_cons]

section Parts

variable {root : Expr → Prop} {number number' : Number → Prop} {e e' : Expr}

/-- What is inside of a dotted name is one, too. -/
lemma Dotted.of_mem_parts (h : e.Dotted IsPlaced) (he' : e' ∈ e.parts) : e'.Dotted IsPlaced := by
  induction h with
  | root hroot =>
    cases hroot <;> (rw [parts, List.mem_singleton] at he'; subst he'; constructor)
    · exact .param ‹_›
    · exact .context ‹_›
    · exact .symbol ‹_›
  | @member target name htarget hname ih =>
    rw [parts, List.mem_cons] at he'
    obtain rfl | he' := he'
    · exact .member htarget hname
    · exact ih he'

/-- What is inside of a regular expression is regular. -/
lemma Regular.of_mem_parts (h : e.Regular IsPlaced number) (he' : e' ∈ e.parts) :
    e'.Regular IsPlaced number := by
  induction h with
  | @literal l hl =>
    rw [parts, List.mem_singleton] at he'
    exact he' ▸ .literal hl
  | dotted hdotted => exact .dotted (hdotted.of_mem_parts he')
  | @index target place htarget hplace iht ihp =>
    rw [parts, List.mem_cons, List.mem_append] at he'
    obtain rfl | he' | he' := he'
    · exact .index htarget hplace
    · exact iht he'
    · exact ihp he'
  | @list items hitems ih =>
    rw [parts, itemParts_eq_flatMap, List.mem_cons, List.mem_flatMap] at he'
    obtain rfl | ⟨item, hitem, he'⟩ := he'
    · exact .list hitems
    · exact ih item hitem he'
  | @map es hes ih =>
    rw [parts, entryParts_eq_flatMap, List.mem_cons, List.mem_flatMap] at he'
    obtain rfl | ⟨p, hp, he'⟩ := he'
    · exact .map hes
    · exact ih p hp he'
  | @call callee args kwargs hcallee hargs hkwargs ihargs ihkwargs =>
    rw [parts, itemParts_eq_flatMap, entryParts_eq_flatMap, List.mem_cons, List.mem_append,
      List.mem_append, List.mem_flatMap, List.mem_flatMap] at he'
    obtain rfl | (he' | ⟨arg, harg, he'⟩) | ⟨p, hp, he'⟩ := he'
    · exact .call hcallee hargs hkwargs
    · exact .dotted (hcallee.of_mem_parts he')
    · exact ihargs arg harg he'
    · exact ihkwargs p hp he'

/-- All numbers of a regular expression are inside of it. -/
lemma Regular.restrict (h : e.Regular root number)
    (hnumber : ∀ n, .literal (.number n) ∈ e.parts → number n → number' n) :
    e.Regular root number' := by
  induction h with
  | @literal l hl =>
    refine .literal ?_
    rintro n rfl
    exact hnumber n (mem_parts_self _) (hl n rfl)
  | dotted hdotted => exact .dotted hdotted
  | index _ _ iht ihp =>
    refine .index (iht fun n hn => hnumber n ?_) (ihp fun n hn => hnumber n ?_) <;>
      rw [parts] <;> simp [hn]
  | @list items _ ih =>
    refine .list fun item hitem => ih item hitem fun n hn => hnumber n ?_
    rw [parts, itemParts_eq_flatMap]
    exact List.mem_cons_of_mem _ (List.mem_flatMap.2 ⟨item, hitem, hn⟩)
  | @map es _ ih =>
    refine .map fun p hp => ih p hp fun n hn => hnumber n ?_
    rw [parts, entryParts_eq_flatMap]
    exact List.mem_cons_of_mem _ (List.mem_flatMap.2 ⟨p, hp, hn⟩)
  | @call callee args kwargs hcallee _ _ ihargs ihkwargs =>
    refine .call hcallee (fun arg harg => ihargs arg harg fun n hn => hnumber n ?_)
      fun p hp => ihkwargs p hp fun n hn => hnumber n ?_ <;>
      rw [parts, itemParts_eq_flatMap, entryParts_eq_flatMap]
    · exact List.mem_cons_of_mem _ (List.mem_append_left _ (List.mem_append_right _
        (List.mem_flatMap.2 ⟨arg, harg, hn⟩)))
    · exact List.mem_cons_of_mem _ (List.mem_append_right _ (List.mem_flatMap.2 ⟨p, hp, hn⟩))

end Parts

/-- **All numbers in the expression are finite.** -/
def IsFinite (e : Expr) : Prop :=
  ∀ n, .literal (.number n) ∈ e.parts → n.isFinite = true

end Expr

/-- The expressions of a compiled program are regular. -/
lemma Compiler.isLinked_of_mem_expressions {c : Compiler} {entry : SourceFile} {p : Program}
    (hp : c.compile entry = .ok p) {e : Expr} (he : e ∈ p.expressions) : e.IsLinked := by
  obtain ⟨outer, houter, he⟩ := List.mem_flatMap.1 he
  exact (forall_mem_allExpressions.2 (isLinked_of_compile hp) outer houter).of_mem_parts he

namespace Script

/-- The numbers whose texts are told apart. -/
def IsWritten (n : Number) : Prop :=
  n.IsRead ∧ n.isFinite = true

lemma IsWritten.exists_isWriting {n : Number} (h : IsWritten n) :
    ∃ s m e negative body, n = .finite s m e ∧ Number.Canonical m e ∧
      Number.IsWriting s m e negative body := by
  obtain ⟨⟨cs, hcs⟩, hfinite⟩ := h
  cases n with
  | finite s m e =>
    have hcanonical := Number.canonical_of_ofNumeral? hcs
    obtain ⟨negative, body, hw⟩ := Number.exists_isWriting hcanonical.lt
    exact ⟨s, m, e, negative, body, rfl, hcanonical, hw⟩
  | infinite s => cases hfinite
  | nan => cases hfinite

/-- **Texts tell numbers apart** that are finite and have been read. -/
lemma numbersApart : NumbersApart IsWritten := by
  constructor
  · intro n hn
    obtain ⟨s, m, e, negative, body, rfl, _, hw⟩ := hn.exists_isWriting
    obtain ⟨d, ds, rfl, hd⟩ := hw.isBody.head
    rw [hw.toList]
    cases negative
    · exact ⟨d, ds, rfl, .inl hd⟩
    · exact ⟨'-', d :: ds, rfl, .inr rfl⟩
  · intro n hn
    obtain ⟨s, m, e, negative, body, rfl, _, hw⟩ := hn.exists_isWriting
    have hbody : ∀ c ∈ body, isNumeralPart c = true := by
      intro c hc
      obtain hc | rfl := hw.isBody.chars c hc
      · simp [isNumeralPart, hc]
      · decide
    rw [hw.toList]
    cases negative
    · exact hbody
    · exact List.forall_mem_cons.2 ⟨by decide, hbody⟩
  · intro n n' hn hn' htext
    obtain ⟨s, m, e, _, _, rfl, hcanonical, _⟩ := hn.exists_isWriting
    obtain ⟨s', m', e', _, _, rfl, hcanonical', _⟩ := hn'.exists_isWriting
    exact Number.equals_of_text hcanonical hcanonical' htext

/-- **Expressions are told apart by the script**: two that occur in compiled programs, with finite
numbers only, are equal if they have the same text. -/
theorem expressions_apart {c c' : Compiler} {entry entry' : SourceFile} {p p' : Program}
    (hp : c.compile entry = .ok p) (hp' : c'.compile entry' = .ok p') {e e' : Expr}
    (he : e ∈ p.expressions) (he' : e' ∈ p'.expressions) (hfinite : e.IsFinite)
    (hfinite' : e'.IsFinite) (h : expr e = expr e') : e.equals e' = true := by
  have written {c : Compiler} {entry : SourceFile} {p : Program} (hp : c.compile entry = .ok p)
      {e : Expr} (he : e ∈ p.expressions) (hfinite : e.IsFinite) :
      e.Regular Expr.IsPlaced IsWritten :=
    (Compiler.isLinked_of_mem_expressions hp he).restrict fun n hn hread => ⟨hread, hfinite n hn⟩
  have hnil : Closes [] := by rintro c ⟨⟩
  have hreads := (readsWith_of_regular numbersApart (written hp he hfinite)).reads
  exact (hreads e' (written hp' he' hfinite') hnil hnil (congrArg (·.toList ++ []) h)).1

namespace Zeros

def compiler : Compiler where
  tags := .standard
  library := ⟨fun _ => none, fun _ => none⟩
  maxDepth := 8

/-- A page that calls a function with negative zero: `{{ f(-0, a.b) }}`. -/
def negative : SourceFile := ⟨"negative", "\x7b\x7b f(-0, a.b) \x7d\x7d"⟩

/-- A page that calls it with zero: `{{ f(0, a.b) }}`. -/
def positive : SourceFile := ⟨"positive", "\x7b\x7b f(0, a.b) \x7d\x7d"⟩

/-- The expression of either page, with names as they stand there. -/
def written (sign : Bool) : Expr :=
  .call (.var "f") [.literal (.number (.finite sign 0 0)), .member (.var "a") "b"] []

/-- The expression of either page, with names as entries of the context. -/
def shown (sign : Bool) : Expr :=
  .call (.context "f") [.literal (.number (.finite sign 0 0)), .member (.context "a") "b"] []

lemma compiled {page : SourceFile} {sign : Bool} {source : String} {span : Text.Span}
    (hread : Node.ofSource .standard page.text = .ok [.output ⟨written sign, source, 1, span⟩]) :
    compiler.compile page = .ok ⟨page.name, [.output (shown sign)]⟩ := by
  have hnodes : compiler.nodes page = .ok [.output ⟨written sign, source, 1, span⟩] := by
    show (Node.ofSource .standard page.text).mapError _ = _
    rw [hread]
    rfl
  exact Compiler.compile_of_nodes hnodes (FileScope.nodes_output _ _)

lemma negative_read : Node.ofSource .standard negative.text =
    .ok [.output ⟨written true, "f(-0, a.b)", 1, ⟨0, 16⟩⟩] := by
  refine Node.ofSource_of [⟨.output, " f(-0, a.b) ".toList, 0, 1⟩] (by decide +kernel) ?_
  rw [Builder.foldlM_add (Builder.add_output
    [⟨.blank, " ", ⟨2, 3⟩, 1⟩, ⟨.call, "f", ⟨3, 5⟩, 1⟩, ⟨.number, "-0", ⟨5, 7⟩, 1⟩,
      ⟨.comma, ",", ⟨7, 8⟩, 1⟩, ⟨.blank, " ", ⟨8, 9⟩, 1⟩, ⟨.path, "a.b", ⟨9, 12⟩, 1⟩,
      ⟨.parenClose, ")", ⟨12, 13⟩, 1⟩, ⟨.blank, " ", ⟨13, 14⟩, 1⟩]
    (written true) rfl (by cbv) (by decide +kernel) (by cbv))]
  rfl

lemma positive_read : Node.ofSource .standard positive.text =
    .ok [.output ⟨written false, "f(0, a.b)", 1, ⟨0, 15⟩⟩] := by
  refine Node.ofSource_of [⟨.output, " f(0, a.b) ".toList, 0, 1⟩] (by decide +kernel) ?_
  rw [Builder.foldlM_add (Builder.add_output
    [⟨.blank, " ", ⟨2, 3⟩, 1⟩, ⟨.call, "f", ⟨3, 5⟩, 1⟩, ⟨.number, "0", ⟨5, 6⟩, 1⟩,
      ⟨.comma, ",", ⟨6, 7⟩, 1⟩, ⟨.blank, " ", ⟨7, 8⟩, 1⟩, ⟨.path, "a.b", ⟨8, 11⟩, 1⟩,
      ⟨.parenClose, ")", ⟨11, 12⟩, 1⟩, ⟨.blank, " ", ⟨12, 13⟩, 1⟩]
    (written false) rfl (by cbv) (by decide +kernel) (by cbv))]
  rfl

lemma shown_isFinite (sign : Bool) : (shown sign).IsFinite := by
  intro n hn
  simp [shown, Expr.parts, Expr.itemParts, Expr.entryParts] at hn
  rw [hn]
  rfl

/-- The two calls have the same text, and are equal like the two zeros. -/
theorem zeros_not_apart : shown true ≠ shown false ∧ expr (shown true) = expr (shown false) ∧
    (shown true).equals (shown false) = true := by
  have hmem (sign : Bool) (name : String) :
      shown sign ∈ Program.expressions ⟨name, [.output (shown sign)]⟩ :=
    List.mem_flatMap.2 ⟨_, List.mem_singleton_self _, Expr.mem_parts_self _⟩
  have hzero : (Number.finite true 0 0).text = (Number.finite false 0 0).text := by decide +kernel
  have htext : expr (shown true) = expr (shown false) := by
    simp only [shown, expr, exprs, literal, hzero]
  exact ⟨by simp [shown], htext, expressions_apart (compiled negative_read) (compiled positive_read)
    (hmem _ _) (hmem _ _) (shown_isFinite true) (shown_isFinite false) htext⟩

end Zeros

end Script

end Stencil
