import Stencil.Proofs.Number.Text

/-!
Whole numbers. What is a canonical number already is not changed by rounding
(`Number.ofRatio_exact`), and every natural below `2 ^ 53` is one (`Number.exists_canonical`). So
integers of at most fifteen digits are numbers exactly, and are found again in them
(`Number.short?_ofInt`).

A number is **short** if it is equal to such an integer (`Number.IsShort`). The number of the
integer is then equal to the number itself (`Number.IsShort.equals_ofInt`), though it need not be
the same one, since there are two zeros.
-/

namespace Stencil

namespace Number

/-! ### Exact numbers -/

section Exact

variable {m s : Nat}

/-- The shift of a canonical number is found from its units. -/
lemma Canonical.log2_eq (h : Canonical m s) : (m * 2 ^ s).log2 - 52 = s := by
  have hpow : 0 < 2 ^ s := Nat.pow_pos Nat.two_pos
  by_cases hm : m = 0
  · have hs : s = 0 := h.le.resolve_right (by omega)
    simp [hm, hs]
  have hne : m * 2 ^ s ≠ 0 := Nat.mul_ne_zero hm hpow.ne'
  have hupper : (m * 2 ^ s).log2 < 53 + s := by
    rw [Nat.log2_lt hne, Nat.pow_add]
    exact Nat.mul_lt_mul_of_pos_right h.lt hpow
  obtain hs | hle := h.le
  · omega
  · have hlower : 52 + s ≤ (m * 2 ^ s).log2 := by
      rw [Nat.le_log2 hne, Nat.pow_add]
      exact Nat.mul_le_mul_right _ hle
    omega

lemma roundDiv_mul {den : Nat} (hden : 0 < den) (m : Nat) : roundDiv (m * den) den = m := by
  rw [roundDiv, Nat.mul_mod_left, if_pos (.inl (by omega)), Nat.mul_div_cancel m hden]

/-- **A quotient that is a number** is rounded to it. -/
lemma ofRatio_exact (h : Canonical m s) (hs : s ≤ 2045) {num den : Nat} (hden : 0 < den)
    (hnum : num * unitsPerOne = m * 2 ^ s * den) (negative : Bool) :
    ofRatio negative num den = .finite negative m s := by
  have hshift : (num * unitsPerOne / den).log2 - 52 = s := by
    rw [hnum, Nat.mul_div_cancel _ hden, h.log2_eq]
  have hmantissa : roundDiv (num * unitsPerOne) (den * twoTo s) = m := by
    rw [hnum, twoTo_eq, Nat.mul_assoc, Nat.mul_comm (2 ^ s)]
    exact roundDiv_mul (Nat.mul_pos hden (Nat.pow_pos Nat.two_pos)) m
  have hcarry : m ≠ twoTo 53 := h.lt.ne
  simp only [ofRatio, hshift, hmantissa]
  rw [if_neg hcarry, if_pos hs]

/-- Naturals below `2 ^ 53` are numbers. -/
lemma exists_canonical {k : Nat} (hk : k < 2 ^ 53) :
    ∃ m s, Canonical m s ∧ s ≤ 1074 ∧ m * 2 ^ s = k * unitsPerOne := by
  by_cases hzero : k = 0
  · exact ⟨0, 0, canonical_zero, Nat.zero_le _, by simp [hzero]⟩
  have hlog : k.log2 < 53 := (Nat.log2_lt hzero).2 hk
  obtain ⟨d, hd⟩ := Nat.exists_eq_add_of_le (show k.log2 ≤ 52 by omega)
  refine ⟨k * 2 ^ d, 1074 - d, ⟨?_, .inr ?_⟩, by omega, ?_⟩
  · calc k * 2 ^ d < 2 ^ (k.log2 + 1) * 2 ^ d :=
          Nat.mul_lt_mul_of_pos_right Nat.lt_log2_self (Nat.pow_pos Nat.two_pos)
      _ = 2 ^ 53 := by rw [← Nat.pow_add]; congr 1; omega
  · calc 2 ^ 52 = 2 ^ k.log2 * 2 ^ d := by rw [← Nat.pow_add, ← hd]
      _ ≤ k * 2 ^ d := Nat.mul_le_mul_right _ (Nat.log2_self_le hzero)
  · calc k * 2 ^ d * 2 ^ (1074 - d) = k * twoTo (d + (1074 - d)) := by
          rw [Nat.mul_assoc, ← Nat.pow_add, twoTo_eq]
      _ = k * unitsPerOne := by rw [Nat.add_sub_cancel' (show d ≤ 1074 by omega), unitsPerOne]

end Exact

/-! ### Short whole numbers -/

/-- **The number is short**: a binary64 number that is equal to an integer of at most fifteen
digits. -/
inductive IsShort : Number → Prop
  | finite {negative : Bool} {m s k : Nat} : Canonical m s → k < 10 ^ 15 →
      m * 2 ^ s = k * unitsPerOne → IsShort (.finite negative m s)

section Short

variable {negative : Bool} {m s k : Nat}

lemma toInt?_of_units (h : m * 2 ^ s = k * unitsPerOne) :
    (Number.finite negative m s).toInt? = some (if negative then -(k : Int) else k) := by
  rw [toInt?, magnitude?, twoTo_eq, h, Nat.mul_mod_left, if_pos rfl,
    Nat.mul_div_cancel k unitsPerOne_pos]
  rfl

lemma short?_of_units (h : m * 2 ^ s = k * unitsPerOne) (hk : k < 10 ^ 15) :
    (Number.finite negative m s).short? = some (if negative then -(k : Int) else k) := by
  have habs : (if negative then -(k : Int) else k).natAbs = k := by
    cases negative <;> simp
  rw [short?, toInt?_of_units h, Option.filter_some, if_pos]
  rw [habs, tenTo_eq]
  exact decide_eq_true hk

lemma ofInt_eq {i : Int} (h : Canonical m s) (hs : s ≤ 1074)
    (hunits : m * 2 ^ s = i.natAbs * unitsPerOne) : ofInt i = .finite (decide (i < 0)) m s :=
  ofRatio_exact h (by omega) Nat.one_pos (by rw [Nat.mul_one, hunits]) _

/-- **Integers of at most fifteen digits** are found again in their numbers. -/
lemma short?_ofInt {i : Int} (h : i.natAbs < 10 ^ 15) : (ofInt i).short? = some i := by
  obtain ⟨m, s, hcanonical, hs, hunits⟩ := exists_canonical (show i.natAbs < 2 ^ 53 by omega)
  rw [ofInt_eq hcanonical hs hunits, short?_of_units hunits h]
  congr 1
  simp only [decide_eq_true_eq]
  split <;> omega

/-- **A short number is read again** from its integer. -/
lemma IsShort.equals_ofInt {n : Number} (h : n.IsShort) :
    ∃ i, n.short? = some i ∧ (ofInt i).equals n = true := by
  obtain @⟨negative, m, s, k, hcanonical, hk, hunits⟩ := h
  refine ⟨_, short?_of_units hunits hk, ?_⟩
  set i : Int := if negative then -(k : Int) else k with hi
  have habs : i.natAbs = k := by
    rw [hi]
    cases negative <;> simp
  obtain ⟨m', s', hcanonical', hs', hunits'⟩ := exists_canonical (show k < 2 ^ 53 by omega)
  obtain ⟨rfl, rfl⟩ := hcanonical.unique hcanonical' (hunits.trans hunits'.symm)
  rw [ofInt_eq hcanonical hs' (by rw [habs, hunits]), equals]
  by_cases hm : m = 0
  · simp [hm]
  -- Only zero has two signs.
  · have hpos : k ≠ 0 := by
      rintro rfl
      simp [hm] at hunits
    have hsign : decide (i < 0) = negative := by
      cases negative with
      | false => simp [hi]
      | true =>
        simp only [hi, if_true, decide_eq_true_eq]
        omega
    simp [hsign]

end Short

end Number

end Stencil
