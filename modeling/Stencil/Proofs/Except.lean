import Mathlib.Tactic.Lemma

/-!
Computations that may fail. A computation in steps gives a result or fails as its steps do. It
**fails with** errors of a kind (`FailsWith`) if it has no others. This is shown step by step
(`FailsWith.bind`), for a loop with what it keeps of the elements so far (`FailsWith.foldlM`).

Two computations **tally** (`Tally`) if both have results that correspond or both fail with errors
that correspond. This is shown step by step as well (`Tally.bind`).
-/

namespace Stencil

/-! ### Steps -/

/-- What succeeds in steps succeeds in every step. -/
lemma ok_of_bind {ε α β : Type} {x : Except ε α} {f : α → Except ε β} {b : β}
    (h : (x >>= f) = .ok b) : ∃ a, x = .ok a ∧ f a = .ok b := by
  cases x with
  | ok a => exact ⟨a, rfl, h⟩
  | error e => cases h

lemma bind_eq_of_ok {ε α β : Type} {x : Except ε α} {a : α} (h : x = .ok a)
    (f : α → Except ε β) : (x >>= f) = f a := by
  rw [h]
  rfl

/-- What fails in steps fails in one of them. -/
lemma error_of_bind {ε α β : Type} {x : Except ε α} {f : α → Except ε β} {e : ε}
    (h : (x >>= f) = .error e) : x = .error e ∨ ∃ a, x = .ok a ∧ f a = .error e := by
  cases x with
  | ok a => exact .inr ⟨a, rfl, h⟩
  | error e' => exact .inl (Except.error.inj h ▸ rfl)

/-- What every step passes on holds after all of them. -/
lemma foldlM_keeps {ε α β : Type} {f : β → α → Except ε β} (P : β → Prop)
    (hf : ∀ b x b', P b → f b x = .ok b' → P b') {l : List α} {b b' : β} (hb : P b)
    (h : l.foldlM f b = .ok b') : P b' := by
  induction l generalizing b with
  | nil =>
    cases h
    exact hb
  | cons x rest ih =>
    rw [List.foldlM_cons] at h
    obtain ⟨c, hc, h⟩ := ok_of_bind h
    exact ih (hf b x c hb hc) h

/-- What every step says of the elements taken so far holds of all of them in the end. -/
lemma foldlM_tracks {ε α β : Type} {f : β → α → Except ε β} (P : List α → β → Prop)
    (hf : ∀ xs b x b', P xs b → f b x = .ok b' → P (xs ++ [x]) b') {xs l : List α} {b b' : β}
    (hb : P xs b) (h : l.foldlM f b = .ok b') : P (xs ++ l) b' := by
  induction l generalizing xs b with
  | nil =>
    cases h
    rwa [List.append_nil]
  | cons x rest ih =>
    rw [List.foldlM_cons] at h
    obtain ⟨c, hc, h⟩ := ok_of_bind h
    have hrest := ih (hf xs b x c hb hc) h
    rwa [List.append_assoc, List.singleton_append] at hrest

lemma bind_pure_eq_ok_iff {ε α β : Type} {x : Except ε α} {f : α → β} {b : β} :
    (x >>= fun a => pure (f a)) = .ok b ↔ ∃ a, x = .ok a ∧ b = f a := by
  constructor
  · intro h
    obtain ⟨a, ha, h⟩ := ok_of_bind h
    exact ⟨a, ha, (Except.ok.inj h).symm⟩
  · rintro ⟨a, ha, rfl⟩
    exact bind_eq_of_ok ha _

lemma exists_of_map_eq_ok {ε α β : Type} {f : α → β} {x : Except ε α} {b : β}
    (h : x.map f = .ok b) : ∃ a, x = .ok a ∧ f a = b := by
  cases x with
  | error e => cases h
  | ok a => exact ⟨a, rfl, Except.ok.inj h⟩

lemma eq_error_of_map {ε α β : Type} {f : α → β} {x : Except ε α} {e : ε}
    (h : x.map f = .error e) : x = .error e := by
  cases x with
  | error e' => exact congrArg Except.error (Except.error.inj h)
  | ok a => cases h

/-- What has been put in front of a list is its first element. -/
lemma of_map_cons_eq_ok {ε α : Type} {x : Except ε (List α)} {a a' : α} {l : List α}
    (h : x.map (a :: ·) = .ok (a' :: l)) : a' = a ∧ x = .ok l := by
  obtain ⟨l', hx, hl⟩ := exists_of_map_eq_ok h
  obtain ⟨rfl, rfl⟩ := List.cons.inj hl
  exact ⟨rfl, hx⟩

/-! ### Failing -/

section Failing

variable {ε α β : Type} {P Q : ε → Prop} {x : Except ε α}

/-- The computation fails with errors that have the property, if at all. -/
def FailsWith (P : ε → Prop) (x : Except ε α) : Prop :=
  ∀ e, x = .error e → P e

lemma FailsWith.ok (a : α) : FailsWith P (.ok a : Except ε α) :=
  fun _ h => nomatch h

lemma FailsWith.error {e : ε} (h : P e) : FailsWith P (.error e : Except ε α) := by
  intro e' he
  cases he
  exact h

lemma FailsWith.mono (hx : FailsWith P x) (h : ∀ e, P e → Q e) : FailsWith Q x :=
  fun e he => h e (hx e he)

/-- What is done in steps fails as the steps do. -/
lemma FailsWith.bind {f : α → Except ε β} (hx : FailsWith P x)
    (hf : ∀ a, x = .ok a → FailsWith P (f a)) : FailsWith P (x >>= f) := by
  intro e he
  obtain he | ⟨a, ha, he⟩ := error_of_bind he
  · exact hx e he
  · exact hf a ha e he

/-- So does a loop, the steps of which keep track of the elements taken so far. -/
lemma FailsWith.foldlM {f : β → α → Except ε β} {I : List α → β → Prop} {l : List α} {b : β}
    (hb : I [] b) (hkeep : ∀ xs b a b', I xs b → f b a = .ok b' → I (xs ++ [a]) b')
    (hf : ∀ xs b a, xs ++ [a] <+: l → I xs b → FailsWith P (f b a)) :
    FailsWith P (l.foldlM f b) := by
  suffices h : ∀ rest xs b, xs ++ rest = l → I xs b → FailsWith P (rest.foldlM f b) from
    h l [] b rfl hb
  intro rest
  induction rest with
  | nil => exact fun _ _ _ _ => .ok _
  | cons a rest ih =>
    rintro xs b rfl hxs
    rw [List.foldlM_cons]
    refine (hf xs b a ⟨rest, by simp⟩ hxs).bind fun b' hb' => ?_
    exact ih (xs ++ [a]) b' (by simp) (hkeep xs b a b' hxs hb')

end Failing

/-! ### Two computations -/

/-- Both are results, which correspond, or both are errors, which correspond. -/
inductive Tally {ε α β : Type} (E : ε → ε → Prop) (R : α → β → Prop) :
    Except ε α → Except ε β → Prop
  | ok {a : α} {b : β} : R a b → Tally E R (.ok a) (.ok b)
  | error {e e' : ε} : E e e' → Tally E R (.error e) (.error e')

namespace Tally

variable {ε α β γ δ : Type} {E : ε → ε → Prop} {R : α → β → Prop} {S : γ → δ → Prop}
  {x : Except ε α} {y : Except ε β}

lemma bind {f : α → Except ε γ} {g : β → Except ε δ} (h : Tally E R x y)
    (hfg : ∀ {a b}, R a b → Tally E S (f a) (g b)) : Tally E S (x >>= f) (y >>= g) := by
  cases h with
  | ok hab => exact hfg hab
  | error he => exact .error he

lemma mono {S : α → β → Prop} (h : Tally E R x y) (hR : ∀ {a b}, R a b → S a b) :
    Tally E S x y := by
  cases h with
  | ok hab => exact .ok (hR hab)
  | error he => exact .error he

/-- The second result may be put into another form. -/
lemma map_right {T : α → γ → Prop} {f : β → γ} (h : Tally E R x y)
    (hf : ∀ {a b}, R a b → T a (f b)) : Tally E T x (y >>= fun b => .ok (f b)) := by
  cases h with
  | ok hab => exact .ok (hf hab)
  | error he => exact .error he

lemma of_ok {a : α} {b : β} (h : Tally E R (.ok a) (.ok b)) : R a b := by
  cases h with
  | ok hab => exact hab

end Tally

end Stencil
