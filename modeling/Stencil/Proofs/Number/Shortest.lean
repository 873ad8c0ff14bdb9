import Mathlib.Data.Rat.Cast.Order
import Mathlib.Tactic.FieldSimp
import Mathlib.Tactic.Linarith
import Mathlib.Tactic.Positivity
import Mathlib.Tactic.Ring
import Stencil.Number.Shortest

/-!
What reads back as a number. Numbers that have been read are **canonical**
(`Number.canonical_of_ofNumeral?`): mantissas are below `2 ^ 53`, and at least `2 ^ 52` unless the
shift is zero. Canonical numbers are ordered like the intervals around them
(`Number.high_le_low`), which meet at most in an end that belongs to none of two neighbours or to
one of them. So nothing **reads back** as two numbers (`Number.ReadsBack.unique`).

`Number.shortest` finds a decimal that reads back (`Number.readsBack_shortest`): with seventeen
digits the unit of the last one is less than the length of the interval, so that one of the two
multiples next to the number is inside.
-/

namespace Stencil

/-- The value of a decimal. -/
def Decimal.value (d : Decimal) : ℚ :=
  d.digits * 10 ^ d.exponent

namespace Number

lemma twoTo_eq (n : Nat) : twoTo n = 2 ^ n :=
  rfl

lemma tenTo_eq (n : Nat) : tenTo n = 10 ^ n :=
  rfl

lemma twoTo_pos (n : Nat) : 0 < twoTo n :=
  Nat.pow_pos Nat.two_pos

lemma tenTo_pos (n : Nat) : 0 < tenTo n :=
  Nat.pow_pos (Nat.succ_pos 9)

lemma unitsPerOne_pos : 0 < unitsPerOne :=
  twoTo_pos 1074

lemma quartersPerOne_pos : 0 < quartersPerOne :=
  Nat.mul_pos (Nat.succ_pos 3) unitsPerOne_pos

/-! ### Canonical numbers -/

/-- The mantissa and the shift as rounding leaves them. -/
structure Canonical (mantissa shift : Nat) : Prop where
  lt : mantissa < 2 ^ 53
  le : shift = 0 ∨ 2 ^ 52 ≤ mantissa

lemma canonical_zero : Canonical 0 0 :=
  ⟨by decide, .inl rfl⟩

lemma div_le_roundDiv (num den : Nat) : num / den ≤ roundDiv num den := by
  rw [roundDiv]
  split <;> omega

lemma roundDiv_le (num den : Nat) : roundDiv num den ≤ num / den + 1 := by
  rw [roundDiv]
  split <;> omega

lemma canonical_of_ofRatio {negative s : Bool} {num den m e : Nat}
    (h : ofRatio negative num den = .finite s m e) : Canonical m e := by
  simp only [ofRatio] at h
  set units := num * unitsPerOne
  set shift := (units / den).log2 - 52 with hshift
  have hquotient : units / (den * twoTo shift) = units / den / 2 ^ shift := by
    rw [twoTo_eq, Nat.div_div_eq_div_mul]
  have hlt : units / den / 2 ^ shift < 2 ^ 53 := by
    rw [Nat.div_lt_iff_lt_mul (by positivity), ← pow_add]
    exact Nat.lt_of_lt_of_le Nat.lt_log2_self (Nat.pow_le_pow_right (by decide) (by omega))
  have hle : shift = 0 ∨ 2 ^ 52 ≤ units / den / 2 ^ shift := by
    refine or_iff_not_imp_left.2 fun hne => ?_
    have hpos : units / den ≠ 0 := by
      rintro hzero
      rw [hshift, hzero, Nat.log2_zero] at hne
      exact hne rfl
    rw [Nat.le_div_iff_mul_le (by positivity), ← pow_add, show 52 + shift = (units / den).log2 by
      omega]
    exact Nat.log2_self_le hpos
  have hfloor := div_le_roundDiv units (den * twoTo shift)
  have hceil := roundDiv_le units (den * twoTo shift)
  rw [hquotient] at hfloor hceil
  split at h
  · split at h <;> cases h
    exact ⟨by decide, .inr le_rfl⟩
  · rename_i hne
    split at h
    · obtain ⟨_, hm, he⟩ := Number.finite.inj h
      rw [← hm, ← he]
      exact ⟨lt_of_le_of_ne (by omega) hne, hle.imp_right fun hle => hle.trans hfloor⟩
    · cases h

/-- Numbers that have been read are canonical. -/
lemma canonical_of_ofNumeral? {cs : List Char} {s : Bool} {m e : Nat}
    (h : ofNumeral? cs = some (.finite s m e)) : Canonical m e := by
  have hdecimal {negative : Bool} {digits : Nat} {exponent : Int}
      (h : ofDecimal negative digits exponent = .finite s m e) : Canonical m e := by
    simp only [ofDecimal] at h
    split at h
    · cases h
      exact canonical_zero
    · split at h
      · cases h
      · split at h <;> exact canonical_of_ofRatio h
  simp only [ofNumeral?, ofParts?] at h
  split at h
  · cases h
  · split at h
    · cases h
    · obtain ⟨exponent, _, h⟩ := Option.bind_eq_some_iff.1 h
      obtain ⟨digits, _, h⟩ := Option.map_eq_some_iff.1 h
      exact hdecimal h

/-! ### Intervals -/

/-- The lower end of the interval around a number. -/
def low (mantissa shift : Nat) : Nat :=
  (interval mantissa shift).1

/-- The upper end of the interval around a number. -/
def high (mantissa shift : Nat) : Nat :=
  (interval mantissa shift).2.2

lemma high_eq (m s : Nat) : high m s = (4 * m + 2) * 2 ^ s :=
  rfl

lemma low_eq (m s : Nat) :
    low m s = (if m = 2 ^ 52 ∧ 0 < s then 4 * m - 1 else 4 * m - 2) * 2 ^ s :=
  rfl

/-- **A value reads back** as the number with the mantissa and the shift, its sign left out. -/
structure ReadsBack (mantissa shift : Nat) (x : ℚ) : Prop where
  low_le : (low mantissa shift : ℚ) ≤ x * quartersPerOne
  le_high : x * quartersPerOne ≤ high mantissa shift
  even : x * quartersPerOne = low mantissa shift ∨ x * quartersPerOne = high mantissa shift →
    mantissa % 2 = 0

variable {m m' s s' : Nat}

/-- Intervals are ordered like canonical numbers, and a common end is kept from one of them. -/
lemma high_le_low (h : Canonical m s) (h' : Canonical m' s') (hlt : m * 2 ^ s < m' * 2 ^ s') :
    high m s ≤ low m' s' ∧ (high m s = low m' s' → m % 2 = 1 ∨ m' % 2 = 1) := by
  have hm := h.lt
  have hpos (s : Nat) : 0 < 2 ^ s := Nat.pow_pos (by decide)
  rw [high_eq, low_eq]
  obtain hss | rfl | hss := Nat.lt_trichotomy s s'
  · -- The mantissa of the greater number counts at least twice.
    obtain ⟨k, rfl⟩ := Nat.exists_eq_add_of_lt hss
    have hm' : 2 ^ 52 ≤ m' := h'.le.resolve_left (by omega)
    set l := if m' = 2 ^ 52 ∧ 0 < s + k + 1 then 4 * m' - 1 else 4 * m' - 2 with hl
    have hlow : 4 * 2 ^ 52 - 1 ≤ l := by
      rw [hl]
      split <;> omega
    have hsplit : l * 2 ^ (s + k + 1) = l * 2 * 2 ^ k * 2 ^ s := by ring
    have hle : 4 * m + 2 ≤ l * 2 := by omega
    have hle' : l * 2 ≤ l * 2 * 2 ^ k := Nat.le_mul_of_pos_right _ (hpos k)
    rw [hsplit]
    refine ⟨Nat.mul_le_mul_right _ (hle.trans hle'), fun heq => ?_⟩
    have heq' := Nat.eq_of_mul_eq_mul_right (hpos s) heq
    omega
  · have hmm : m < m' := Nat.lt_of_mul_lt_mul_right hlt
    have hlow : ¬ (m' = 2 ^ 52 ∧ 0 < s) := by
      rintro ⟨rfl, hs⟩
      have := h.le.resolve_left hs.ne'
      omega
    rw [if_neg hlow]
    refine ⟨Nat.mul_le_mul_right _ (by omega), fun heq => ?_⟩
    have heq' := Nat.eq_of_mul_eq_mul_right (hpos s) heq
    omega
  · obtain ⟨k, rfl⟩ := Nat.exists_eq_add_of_lt hss
    have hm' := h'.lt
    have hle : 2 ^ 52 ≤ m := h.le.resolve_left (by omega)
    have hsplit : m * 2 ^ (s' + k + 1) = m * 2 * 2 ^ k * 2 ^ s' := by ring
    rw [hsplit] at hlt
    have hlt' : m * 2 * 2 ^ k < m' := Nat.lt_of_mul_lt_mul_right hlt
    have hle' : m * 2 ≤ m * 2 * 2 ^ k := Nat.le_mul_of_pos_right _ (hpos k)
    omega

/-- A value does not read back as a number and a greater one. -/
lemma ReadsBack.not_lt {x : ℚ} (h : ReadsBack m s x) (h' : ReadsBack m' s' x)
    (hm : Canonical m s) (hm' : Canonical m' s') : ¬ m * 2 ^ s < m' * 2 ^ s' := by
  intro hlt
  obtain ⟨hle, hodd⟩ := high_le_low hm hm' hlt
  have hle' : (high m s : ℚ) ≤ low m' s' := by exact_mod_cast hle
  have hhigh : x * quartersPerOne = high m s := le_antisymm h.le_high (hle'.trans h'.low_le)
  have hlow : x * quartersPerOne = low m' s' := le_antisymm (h.le_high.trans hle') h'.low_le
  have hends : high m s = low m' s' := by exact_mod_cast hhigh.symm.trans hlow
  have heven := h.even (.inr hhigh)
  have heven' := h'.even (.inl hlow)
  have := hodd hends
  omega

/-- Canonical numbers are equal if their values are. -/
lemma Canonical.unique (h : Canonical m s) (h' : Canonical m' s')
    (heq : m * 2 ^ s = m' * 2 ^ s') : m = m' ∧ s = s' := by
  have hnot {m m' s s' : Nat} (h : Canonical m s) (h' : Canonical m' s')
      (heq : m * 2 ^ s = m' * 2 ^ s') : ¬ s < s' := by
    intro hss
    obtain ⟨k, rfl⟩ := Nat.exists_eq_add_of_lt hss
    have hm := h.lt
    have hm' : 2 ^ 52 ≤ m' := h'.le.resolve_left (by omega)
    have hsplit : m' * 2 ^ (s + k + 1) = m' * 2 * 2 ^ k * 2 ^ s := by ring
    rw [hsplit] at heq
    have heq' := Nat.eq_of_mul_eq_mul_right (Nat.pow_pos (by decide)) heq
    have hle : m' * 2 ≤ m' * 2 * 2 ^ k := Nat.le_mul_of_pos_right _ (Nat.pow_pos (by decide))
    omega
  obtain rfl : s = s' := le_antisymm (not_lt.1 (hnot h' h heq.symm)) (not_lt.1 (hnot h h' heq))
  exact ⟨Nat.eq_of_mul_eq_mul_right (Nat.pow_pos (by decide)) heq, rfl⟩

/-- **Nothing reads back as two numbers.** -/
lemma ReadsBack.unique {x : ℚ} (h : ReadsBack m s x) (h' : ReadsBack m' s' x)
    (hm : Canonical m s) (hm' : Canonical m' s') : m = m' ∧ s = s' :=
  hm.unique hm' (le_antisymm (Nat.le_of_not_lt (h'.not_lt h hm' hm))
    (Nat.le_of_not_lt (h.not_lt h' hm hm')))

/-! ### Multiples of a power of ten -/

/-- What `10 ^ exponent` is, counted in quarters of the unit, times `scale exponent`. -/
def unit (exponent : Int) : Nat :=
  if 0 ≤ exponent then tenTo exponent.toNat * quartersPerOne else quartersPerOne

/-- The denominator of `10 ^ exponent`. -/
def scale (exponent : Int) : Nat :=
  if 0 ≤ exponent then 1 else tenTo (-exponent).toNat

lemma scale_pos (e : Int) : 0 < scale e := by
  rw [scale]
  split
  · exact Nat.one_pos
  · exact tenTo_pos _

lemma unit_pos (e : Int) : 0 < unit e := by
  rw [unit]
  split
  · exact Nat.mul_pos (tenTo_pos _) quartersPerOne_pos
  · exact quartersPerOne_pos

lemma cast_unit (e : Int) : (unit e : ℚ) = 10 ^ e * quartersPerOne * scale e := by
  rw [unit, scale]
  split
  · rename_i he
    obtain ⟨n, rfl⟩ := Int.eq_ofNat_of_zero_le he
    rw [Int.toNat_natCast, tenTo_eq, Nat.cast_mul, Nat.cast_pow, Nat.cast_ofNat, zpow_natCast,
      Nat.cast_one, mul_one]
  · rename_i he
    obtain ⟨n, hn⟩ := Int.eq_ofNat_of_zero_le (show 0 ≤ -e by omega)
    obtain rfl : e = -(n : ℤ) := by omega
    have hne : (10 : ℚ) ^ n ≠ 0 := by positivity
    rw [hn]
    rw [Int.toNat_natCast, tenTo_eq, Nat.cast_pow, Nat.cast_ofNat, zpow_neg, zpow_natCast,
      mul_right_comm, inv_mul_cancel₀ hne, one_mul]

/-- Whether the multiple of `10 ^ exponent` reads back. -/
def isInside (mantissa shift : Nat) (exponent : Int) (n : Nat) : Bool :=
  if mantissa % 2 = 0 then
    low mantissa shift * scale exponent ≤ n * unit exponent &&
      n * unit exponent ≤ high mantissa shift * scale exponent
  else
    low mantissa shift * scale exponent < n * unit exponent &&
      n * unit exponent < high mantissa shift * scale exponent

lemma cast_mul_unit (n : Nat) (e : Int) :
    ((n * unit e : Nat) : ℚ) = (Decimal.mk n e).value * quartersPerOne * scale e := by
  rw [Nat.cast_mul, cast_unit, Decimal.value]
  ring

/-- Quantities over the denominator are compared with the value of a decimal. -/
lemma mul_scale_le_iff (q n : Nat) (e : Int) :
    q * scale e ≤ n * unit e ↔ (q : ℚ) ≤ (Decimal.mk n e).value * quartersPerOne := by
  have hscale : (0 : ℚ) < scale e := by exact_mod_cast scale_pos e
  rw [← Nat.cast_le (α := ℚ), cast_mul_unit, Nat.cast_mul, mul_le_mul_iff_left₀ hscale]

lemma mul_unit_le_iff (q n : Nat) (e : Int) :
    n * unit e ≤ q * scale e ↔ (Decimal.mk n e).value * quartersPerOne ≤ (q : ℚ) := by
  have hscale : (0 : ℚ) < scale e := by exact_mod_cast scale_pos e
  rw [← Nat.cast_le (α := ℚ), cast_mul_unit, Nat.cast_mul, mul_le_mul_iff_left₀ hscale]

lemma readsBack_of_isInside {e : Int} {n : Nat} (h : isInside m s e n = true) :
    ReadsBack m s (Decimal.mk n e).value := by
  rw [isInside] at h
  split at h
  · rename_i heven
    obtain ⟨hlow, hhigh⟩ := Bool.and_eq_true_iff.1 h
    exact ⟨(mul_scale_le_iff _ _ _).1 (of_decide_eq_true hlow),
      (mul_unit_le_iff _ _ _).1 (of_decide_eq_true hhigh), fun _ => heven⟩
  · obtain ⟨hlow, hhigh⟩ := Bool.and_eq_true_iff.1 h
    have hlow' := of_decide_eq_true hlow
    have hhigh' := of_decide_eq_true hhigh
    refine ⟨(mul_scale_le_iff _ _ _).1 hlow'.le, (mul_unit_le_iff _ _ _).1 hhigh'.le, ?_⟩
    rintro (heq | heq)
    · exact absurd ((mul_unit_le_iff _ _ _).2 heq.le) hlow'.not_ge
    · exact absurd ((mul_scale_le_iff _ _ _).2 heq.ge) hhigh'.not_ge

/-- A multiple that is not inside lies on one of the two sides. -/
lemma le_or_le_of_not_isInside {e : Int} {n : Nat} (h : isInside m s e n = false) :
    n * unit e ≤ low m s * scale e ∨ high m s * scale e ≤ n * unit e := by
  rw [isInside] at h
  split at h <;> simp only [Bool.and_eq_false_iff, decide_eq_false_iff_not] at h <;> omega

/-- What is found reads back; if nothing is, neither of the two multiples next to the number is
inside. -/
lemma nearestMultiple?_spec (tie : Tie) (m s : Nat) (e : Int) :
    (∃ n, nearestMultiple? tie m s e = some ⟨n, e⟩ ∧ isInside m s e n = true) ∨
      nearestMultiple? tie m s e = none ∧
        isInside m s e (4 * m * 2 ^ s * scale e / unit e) = false ∧
        isInside m s e (4 * m * 2 ^ s * scale e / unit e + 1) = false := by
  have either {b : Bool} {i j : Nat} (hi : isInside m s e i = true)
      (hj : isInside m s e j = true) : isInside m s e (if b then i else j) = true := by
    cases b
    · exact hj
    · exact hi
  rw [nearestMultiple?]
  dsimp only
  split
  next hbelow habove => exact .inl ⟨_, rfl, either habove hbelow⟩
  next hbelow _ => exact .inl ⟨_, rfl, hbelow⟩
  next _ habove => exact .inl ⟨_, rfl, habove⟩
  next hbelow habove => exact .inr ⟨rfl, hbelow, habove⟩

/-- **A unit below the length of the interval** has a multiple that is found. -/
lemma exists_nearestMultiple? (tie : Tie) {e : Int} (hm : m ≠ 0)
    (h : low m s * scale e + unit e < high m s * scale e) :
    ∃ n, nearestMultiple? tie m s e = some ⟨n, e⟩ := by
  obtain ⟨n, hsome, _⟩ | ⟨_, hbelow, habove⟩ := nearestMultiple?_spec tie m s e
  · exact ⟨n, hsome⟩
  set mid := 4 * m * 2 ^ s * scale e with hmid
  have hpow : 0 < 2 ^ s * scale e := Nat.mul_pos (Nat.pow_pos (by decide)) (scale_pos e)
  have hlow : low m s * scale e < mid := by
    rw [low_eq, hmid, mul_assoc, mul_assoc (4 * m)]
    refine Nat.mul_lt_mul_of_pos_right ?_ hpow
    split <;> omega
  have hhigh : mid < high m s * scale e := by
    rw [high_eq, hmid, mul_assoc, mul_assoc (4 * m + 2)]
    exact Nat.mul_lt_mul_of_pos_right (by omega) hpow
  have hfloor : mid / unit e * unit e ≤ mid := Nat.div_mul_le_self _ _
  have hceil : mid < mid / unit e * unit e + unit e := Nat.lt_div_mul_add (unit_pos e)
  -- Both multiples are outside, so the interval is between them.
  have hbelow' := le_or_le_of_not_isInside hbelow
  have habove' := le_or_le_of_not_isInside habove
  rw [Nat.succ_mul] at habove'
  omega

/-! ### The search -/

lemma value_stripZeros (fuel : Nat) (d : Decimal) : (stripZeros fuel d).value = d.value := by
  induction fuel generalizing d with
  | zero => rfl
  | succ fuel ih =>
    rw [stripZeros]
    split
    · rename_i h
      obtain ⟨k, hk⟩ := Nat.dvd_of_mod_eq_zero h.1
      rw [ih, Decimal.value, Decimal.value, hk, Nat.mul_div_cancel_left k (by decide),
        zpow_add_one₀ (by norm_num)]
      push_cast
      ring
    · rfl

/-- What the search ends with reads back, if it reaches an exponent at which something is found. -/
lemma readsBack_firstDecimal {tie : Tie} {x : Int} {n count : Nat} {e : Int} (hx : x ≤ e)
    (hcount : e < x + count) (hfound : nearestMultiple? tie m s x = some ⟨n, x⟩) :
    ReadsBack m s (firstDecimal tie m s count e).value := by
  induction count generalizing e with
  | zero => omega
  | succ count ih =>
    rw [firstDecimal]
    obtain ⟨k, hsome, hk⟩ | ⟨hnone, _⟩ := nearestMultiple?_spec tie m s e
    · rw [hsome]
      dsimp only
      rw [value_stripZeros]
      exact readsBack_of_isInside hk
    · have hne : x ≠ e := by
        rintro rfl
        rw [hfound] at hnone
        cases hnone
      rw [hnone]
      exact ih (by omega) (by push_cast at hcount; omega)

lemma lt_pow_decimalWidth (n : Nat) : n < 10 ^ decimalWidth n :=
  (Nat.length_toDigits_le_iff (by decide) Nat.length_toDigits_pos).1 le_rfl

lemma pow_decimalWidth_le {n : Nat} (hn : n ≠ 0) : 10 ^ (decimalWidth n - 1) ≤ n := by
  obtain hlt | hle := Nat.lt_or_ge 1 (decimalWidth n)
  · by_contra hlow
    have := (Nat.length_toDigits_le_iff (b := 10) (by decide) (by omega)).2 (not_le.1 hlow)
    rw [decimalWidth] at this hlt
    omega
  · rw [Nat.sub_eq_zero_of_le hle]
    exact Nat.one_le_iff_ne_zero.2 hn

/-- The leading digit stands for a power of ten that is not greater than the number. -/
lemma zpow_leadingExponent_le {num den : Nat} (hnum : num ≠ 0) (hden : 0 < den) :
    (10 : ℚ) ^ leadingExponent num den * den ≤ num := by
  rw [leadingExponent]
  split
  · rename_i hle
    have hquotient : num / den ≠ 0 := (Nat.div_pos hle hden).ne'
    have hwidth : 0 < decimalWidth (num / den) := Nat.length_toDigits_pos
    have hpow := (Nat.mul_le_mul_right den (pow_decimalWidth_le hquotient)).trans
      (Nat.div_mul_le_self num den)
    rw [show (decimalWidth (num / den) : ℤ) - 1 = ((decimalWidth (num / den) - 1 : Nat) : ℤ) by
      omega, zpow_natCast]
    exact_mod_cast hpow
  · have hlt := lt_pow_decimalWidth ((den - 1) / num)
    rw [Nat.div_lt_iff_lt_mul (Nat.pos_of_ne_zero hnum)] at hlt
    have hle : den ≤ 10 ^ decimalWidth ((den - 1) / num) * num := by omega
    rw [zpow_neg, zpow_natCast, inv_mul_le_iff₀ (by positivity)]
    exact_mod_cast hle

/-- **The shortest decimal reads back.** -/
lemma readsBack_shortest (tie : Tie) (hm : m ≠ 0) (hlt : m < 2 ^ 53) :
    ReadsBack m s (shortest tie m s).value := by
  rw [shortest, if_neg hm]
  set e := leadingExponent (4 * m * twoTo s) quartersPerOne
  have hpow : 0 < 2 ^ s := Nat.pow_pos (by decide)
  have hlead : (10 : ℚ) ^ e * quartersPerOne ≤ (4 * m * 2 ^ s : Nat) :=
    zpow_leadingExponent_le (Nat.mul_ne_zero (by omega) hpow.ne') quartersPerOne_pos
  -- Seventeen digits: the unit is below a part in `10 ^ 16` of the number.
  have hgap : 4 * m * 2 ^ s + low m s * 10 ^ 16 < high m s * 10 ^ 16 := by
    have hmantissa : 4 * m + (if m = 2 ^ 52 ∧ 0 < s then 4 * m - 1 else 4 * m - 2) * 10 ^ 16 <
        (4 * m + 2) * 10 ^ 16 := by
      split <;> omega
    rw [low_eq, high_eq]
    calc _ = (4 * m + (if m = 2 ^ 52 ∧ 0 < s then 4 * m - 1 else 4 * m - 2) * 10 ^ 16) * 2 ^ s := by
          ring
      _ < (4 * m + 2) * 10 ^ 16 * 2 ^ s := Nat.mul_lt_mul_of_pos_right hmantissa hpow
      _ = _ := by ring
  have hunit : low m s * scale (e - 16) + unit (e - 16) < high m s * scale (e - 16) := by
    have hscale : (0 : ℚ) < scale (e - 16) := by exact_mod_cast scale_pos (e - 16)
    have hgap' : ((4 * m * 2 ^ s : Nat) : ℚ) + low m s * 10 ^ 16 < high m s * 10 ^ 16 := by
      exact_mod_cast hgap
    have hten : (10 : ℚ) ^ (e - 16) * 10 ^ 16 = 10 ^ e := by
      rw [zpow_sub₀ (by norm_num)]
      field_simp
    have hsum : (low m s : ℚ) + 10 ^ (e - 16) * quartersPerOne < high m s := by
      have hsplit : ((low m s : ℚ) + 10 ^ (e - 16) * quartersPerOne) * 10 ^ 16 =
          low m s * 10 ^ 16 + 10 ^ (e - 16) * 10 ^ 16 * quartersPerOne := by ring
      rw [hten] at hsplit
      exact lt_of_mul_lt_mul_right (by linarith) (show (0 : ℚ) ≤ 10 ^ 16 by positivity)
    have hmul := mul_lt_mul_of_pos_right hsum hscale
    rw [add_mul, ← cast_unit] at hmul
    exact_mod_cast hmul
  obtain ⟨n, hfound⟩ := exists_nearestMultiple? tie hm hunit
  exact readsBack_firstDecimal (by omega) (by push_cast; omega) hfound

end Number

end Stencil
