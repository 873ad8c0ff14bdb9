import Stencil.Number.Notation
import Stencil.Proofs.Number.Shortest

/-!
Numbers are told apart by their texts. The text of a finite number is a `Number.Writing`: a body
of digits with at most one point, behind a minus sign if need be, whose value (`Number.bodyValue`)
reads back as the number. A short whole number is written exactly (`Number.writing_of_short?`), and
any other as its shortest decimal (`Number.writing_of_write`). What reads back determines the
number, so equal texts stand for equal numbers (`Number.equals_of_text`).
-/

namespace Stencil

namespace Number

/-! ### Values of digits -/

/-- The value of digits with an optional point. -/
def bodyValue (cs : List Char) : ℚ :=
  Nat.ofDigitChars 10 (cs.filter (· != '.')) 0 / 10 ^ (cs.dropWhile (· != '.')).tail.length

/-- A digit is not a point. -/
lemma ne_point_of_isDigit {c : Char} (hc : c.isDigit = true) : (c != '.') = true := by
  rw [bne_iff_ne]
  rintro rfl
  exact absurd hc (by decide)

lemma filter_of_digits {ds : List Char} (hds : ∀ c ∈ ds, c.isDigit = true) :
    ds.filter (· != '.') = ds :=
  List.filter_eq_self.2 fun c hc => ne_point_of_isDigit (hds c hc)

lemma dropWhile_append_of_digits {ds : List Char} (hds : ∀ c ∈ ds, c.isDigit = true)
    (cs : List Char) : (ds ++ cs).dropWhile (· != '.') = cs.dropWhile (· != '.') :=
  List.dropWhile_append_of_pos fun c hc => ne_point_of_isDigit (hds c hc)

lemma bodyValue_digits {ds : List Char} (hds : ∀ c ∈ ds, c.isDigit = true) :
    bodyValue ds = Nat.ofDigitChars 10 ds 0 := by
  have hdrop : ds.dropWhile (· != '.') = [] := by
    simpa using dropWhile_append_of_digits hds []
  simp [bodyValue, filter_of_digits hds, hdrop]

lemma bodyValue_point {whole fraction : List Char} (hwhole : ∀ c ∈ whole, c.isDigit = true)
    (hfraction : ∀ c ∈ fraction, c.isDigit = true) :
    bodyValue (whole ++ '.' :: fraction) =
      Nat.ofDigitChars 10 (whole ++ fraction) 0 / 10 ^ fraction.length := by
  have hfilter : (whole ++ '.' :: fraction).filter (· != '.') = whole ++ fraction := by
    rw [List.filter_append, List.filter_cons_of_neg (by decide), filter_of_digits hwhole,
      filter_of_digits hfraction]
  have hdrop : (whole ++ '.' :: fraction).dropWhile (· != '.') = '.' :: fraction := by
    rw [dropWhile_append_of_digits hwhole, List.dropWhile_cons_of_neg (by decide)]
  rw [bodyValue, hfilter, hdrop, List.tail_cons]

/-! ### Digits in their places -/

/-- The body of the text of a number: digits with at most one point among them, a digit first. -/
structure IsBody (cs : List Char) : Prop where
  head : ∃ d ds, cs = d :: ds ∧ d.isDigit = true
  chars : ∀ c ∈ cs, c.isDigit = true ∨ c = '.'

lemma isBody_point {whole fraction : List Char} (hne : whole ≠ [])
    (hwhole : ∀ c ∈ whole, c.isDigit = true) (hfraction : ∀ c ∈ fraction, c.isDigit = true) :
    IsBody (whole ++ '.' :: fraction) := by
  obtain ⟨d, ds, rfl⟩ := List.exists_cons_of_ne_nil hne
  refine ⟨⟨d, ds ++ '.' :: fraction, rfl, hwhole d List.mem_cons_self⟩, fun c hc => ?_⟩
  obtain hc | hc := List.mem_append.1 hc
  · exact .inl (hwhole c hc)
  obtain rfl | hc := List.mem_cons.1 hc
  · exact .inr rfl
  · exact .inl (hfraction c hc)

section Place

variable {ds : List Char} (hds : ∀ c ∈ ds, c.isDigit = true)

include hds in
lemma isBody_of_digits (hne : ds ≠ []) : IsBody ds := by
  obtain ⟨d, ds, rfl⟩ := List.exists_cons_of_ne_nil hne
  exact ⟨⟨d, ds, rfl, hds d List.mem_cons_self⟩, fun c hc => .inl (hds c hc)⟩

lemma isDigit_zeros (n : Nat) : ∀ c ∈ List.replicate n '0', c.isDigit = true := by
  intro c hc
  rw [List.eq_of_mem_replicate hc]
  decide

include hds in
/-- Digits in their places have the value of the decimal. -/
lemma place_spec (hne : ds ≠ []) (e : Int) : IsBody (Layout.place false ds e) ∧
    bodyValue (Layout.place false ds e) = Nat.ofDigitChars 10 ds 0 * 10 ^ e := by
  rw [Layout.place]
  split
  · rename_i he
    obtain ⟨n, rfl⟩ := Int.eq_ofNat_of_zero_le he
    have hdigits : ∀ c ∈ ds ++ List.replicate n '0', c.isDigit = true :=
      List.forall_mem_append.2 ⟨hds, isDigit_zeros n⟩
    rw [if_neg (by decide), List.append_nil, Int.toNat_natCast]
    refine ⟨isBody_of_digits hdigits (by simp [hne]), ?_⟩
    rw [bodyValue_digits hdigits, Nat.ofDigitChars_append, Nat.ofDigitChars_replicate_zero,
      zpow_natCast]
    push_cast
    ring
  · rename_i he
    obtain ⟨n, hn⟩ := Int.eq_ofNat_of_zero_le (show 0 ≤ -e by omega)
    obtain rfl : e = -(n : ℤ) := by omega
    rw [hn, Int.toNat_natCast]
    dsimp only
    set padded := List.replicate (n + 1 - ds.length) '0' ++ ds with hpadded
    have hdigits : ∀ c ∈ padded, c.isDigit = true :=
      List.forall_mem_append.2 ⟨isDigit_zeros _, hds⟩
    have hlength : n + 1 ≤ padded.length := by
      rw [hpadded, List.length_append, List.length_replicate]
      omega
    have hwhole : ∀ c ∈ padded.take (padded.length - n), c.isDigit = true :=
      fun c hc => hdigits c (List.mem_of_mem_take hc)
    have hfraction : ∀ c ∈ padded.drop (padded.length - n), c.isDigit = true :=
      fun c hc => hdigits c (List.mem_of_mem_drop hc)
    have hne' : padded.take (padded.length - n) ≠ [] := by
      rw [Ne, List.take_eq_nil_iff, ← List.length_eq_zero_iff]
      omega
    refine ⟨isBody_point hne' hwhole hfraction, ?_⟩
    rw [bodyValue_point hwhole hfraction, List.take_append_drop, List.length_drop,
      show padded.length - (padded.length - n) = n by omega, hpadded, Nat.ofDigitChars_append,
      Nat.ofDigitChars_replicate_zero, Nat.mul_zero, zpow_neg, zpow_natCast, div_eq_mul_inv]

end Place

/-! ### Texts -/

/-- **How a finite number is written**: a body whose value reads back as the number, behind a minus
sign or not. -/
structure IsWriting (s : Bool) (m e : Nat) (negative : Bool) (body : List Char) : Prop where
  isBody : IsBody body
  toList : (Number.finite s m e).text.toList = if negative then '-' :: body else body
  zero : m = 0 → bodyValue body = 0
  sign : m ≠ 0 → negative = s
  readsBack : m ≠ 0 → ReadsBack m e (bodyValue body)

section Texts

variable {s : Bool} {m e : Nat}

lemma isDigit_toDigits (n : Nat) : ∀ c ∈ Nat.toDigits 10 n, c.isDigit = true :=
  fun _ hc => Nat.isDigit_of_mem_toDigits (by decide) (by decide) hc

lemma bodyValue_toDigits (n : Nat) : bodyValue (Nat.toDigits 10 n) = n := by
  rw [bodyValue_digits (isDigit_toDigits n), Nat.ofDigitChars_toDigits (by decide) (by decide)]

/-- A number that is equal to an integer counts its units. -/
lemma exists_of_toInt? {i : Int} (h : (Number.finite s m e).toInt? = some i) :
    ∃ k : Nat, m * 2 ^ e = k * unitsPerOne ∧ i = if s then -(k : Int) else k := by
  simp only [toInt?, magnitude?] at h
  by_cases hmod : m * twoTo e % unitsPerOne = 0
  · rw [if_pos hmod] at h
    exact ⟨m * twoTo e / unitsPerOne, (Nat.div_mul_cancel (Nat.dvd_of_mod_eq_zero hmod)).symm,
      (Option.some.inj h).symm⟩
  · rw [if_neg hmod] at h
    cases h

lemma toList_toString (i : Int) : (toString i).toList =
    if decide (i < 0) then '-' :: Nat.toDigits 10 i.natAbs else Nat.toDigits 10 i.natAbs := by
  rw [Int.toString_eq_repr, Int.repr_eq_if]
  obtain hi | hi := lt_or_ge i 0
  · rw [if_neg hi.not_ge, if_pos (decide_eq_true hi), Nat.repr_eq_ofList_toDigits,
      show (-i).toNat = i.natAbs by omega]
    simp
  · rw [if_pos hi, if_neg (by simpa using hi), Nat.repr_eq_ofList_toDigits,
      show i.toNat = i.natAbs by omega, String.toList_ofList]

/-- The number itself reads back. -/
lemma readsBack_self (hm : m ≠ 0) {x : ℚ} (hx : x * quartersPerOne = (4 * m * 2 ^ e : Nat)) :
    ReadsBack m e x := by
  have hpow : 0 < 2 ^ e := Nat.pow_pos (by decide)
  have hlow : low m e < 4 * m * 2 ^ e := by
    rw [low_eq]
    refine Nat.mul_lt_mul_of_pos_right ?_ hpow
    split <;> omega
  have hhigh : 4 * m * 2 ^ e < high m e := Nat.mul_lt_mul_of_pos_right (by omega) hpow
  refine ⟨?_, ?_, ?_⟩
  · rw [hx]
    exact_mod_cast hlow.le
  · rw [hx]
    exact_mod_cast hhigh.le
  · rw [hx]
    rintro (heq | heq)
    · exact absurd (Nat.cast_injective heq) hlow.ne'
    · exact absurd (Nat.cast_injective heq) hhigh.ne

/-- A short whole number is written as an integer. -/
lemma isWriting_of_short? {i : Int} (h : (Number.finite s m e).short? = some i) :
    IsWriting s m e (decide (i < 0)) (Nat.toDigits 10 i.natAbs) := by
  have htext : (Number.finite s m e).text = toString i := by rw [text, h]
  obtain ⟨k, hunits, hi⟩ := exists_of_toInt? (Option.filter_eq_some_iff.1 h).1
  have habs : i.natAbs = k := by
    rw [hi]
    split <;> simp
  have hkm : k = 0 ↔ m = 0 := by
    have hiff : m * 2 ^ e = 0 ↔ k * unitsPerOne = 0 := by rw [hunits]
    simpa [unitsPerOne_pos.ne'] using hiff.symm
  refine ⟨isBody_of_digits (isDigit_toDigits _) Nat.toDigits_ne_nil, ?_, fun hm => ?_,
    fun hm => ?_, fun hm => ?_⟩
  · rw [htext, toList_toString]
  · rw [bodyValue_toDigits, habs, hkm.2 hm, Nat.cast_zero]
  · have hk : k ≠ 0 := fun hk => hm (hkm.1 hk)
    rw [hi]
    cases s <;> simp [Nat.pos_of_ne_zero hk]
  · refine readsBack_self hm ?_
    rw [bodyValue_toDigits, habs, mul_assoc, hunits, quartersPerOne]
    push_cast
    ring

/-- Any other number is written as its shortest decimal. -/
lemma isWriting_of_write (hm : m < 2 ^ 53) (h : (Number.finite s m e).short? = none) :
    IsWriting s m e s (Layout.place false (Nat.toDigits 10 (shortest .up m e).digits)
      (shortest .up m e).exponent) := by
  have htext : (Number.finite s m e).text = Layout.display.write (.finite s m e) := by rw [text, h]
  obtain ⟨hbody, hvalue⟩ := place_spec (isDigit_toDigits (shortest .up m e).digits)
    Nat.toDigits_ne_nil (shortest .up m e).exponent
  rw [Nat.ofDigitChars_toDigits (by decide) (by decide)] at hvalue
  refine ⟨hbody, ?_, fun hm => ?_, fun _ => rfl, fun hm' => ?_⟩
  · rw [htext, Layout.write, String.toList_ofList]
    simp [Layout.display]
  · rw [hvalue, hm, shortest, if_pos rfl]
    simp
  · rw [hvalue]
    exact readsBack_shortest .up hm' hm

/-- Every finite number has a writing. -/
lemma exists_isWriting (hm : m < 2 ^ 53) : ∃ negative body, IsWriting s m e negative body := by
  cases h : (Number.finite s m e).short? with
  | none => exact ⟨_, _, isWriting_of_write hm h⟩
  | some i => exact ⟨_, _, isWriting_of_short? h⟩

/-- Zero reads back as no other number. -/
lemma ReadsBack.ne_zero {x : ℚ} (h : ReadsBack m e x) (hm : m ≠ 0) : x ≠ 0 := by
  rintro rfl
  have hlow : low m e ≤ 0 := by
    have := h.low_le
    rw [zero_mul] at this
    exact_mod_cast this
  rw [low_eq] at hlow
  have hpos : 0 < if m = 2 ^ 52 ∧ 0 < e then 4 * m - 1 else 4 * m - 2 := by split <;> omega
  exact absurd hlow (Nat.mul_pos hpos (Nat.pow_pos (by decide))).not_ge

/-- A writing determines the number. -/
lemma IsWriting.equals {s' negative : Bool} {m' e' : Nat} {body : List Char}
    (h : IsWriting s m e negative body) (h' : IsWriting s' m' e' negative body)
    (hm : Canonical m e) (hm' : Canonical m' e') :
    (Number.finite s m e).equals (.finite s' m' e') = true := by
  obtain rfl | hne := eq_or_ne m 0
  · obtain rfl | hne' := eq_or_ne m' 0
    · rfl
    · exact absurd (h.zero rfl) ((h'.readsBack hne').ne_zero hne')
  · obtain rfl | hne' := eq_or_ne m' 0
    · exact absurd (h'.zero rfl) ((h.readsBack hne).ne_zero hne)
    · obtain ⟨rfl, rfl⟩ := (h.readsBack hne).unique (h'.readsBack hne') hm hm'
      obtain rfl := (h.sign hne).symm.trans (h'.sign hne')
      simp [Number.equals]

/-- Texts determine how the numbers are written. -/
lemma IsBody.sign_inj {body body' : List Char} (h : IsBody body) (h' : IsBody body')
    {negative negative' : Bool} (heq : (if negative then '-' :: body else body) =
      if negative' then '-' :: body' else body') : negative = negative' ∧ body = body' := by
  have hhead {body cs : List Char} (h : IsBody body) : body ≠ '-' :: cs := by
    obtain ⟨d, ds, rfl, hd⟩ := h.head
    rintro heq
    rw [(List.cons.inj heq).1] at hd
    exact absurd hd (by decide)
  cases negative <;> cases negative' <;> simp only [if_true, if_false, Bool.false_eq_true] at heq
  · exact ⟨rfl, heq⟩
  · exact absurd heq (hhead h)
  · exact absurd heq.symm (hhead h')
  · exact ⟨rfl, (List.cons.inj heq).2⟩

/-- **Equal texts stand for equal numbers.** -/
theorem equals_of_text {s' : Bool} {m' e' : Nat} (hm : Canonical m e) (hm' : Canonical m' e')
    (h : (Number.finite s m e).text = (Number.finite s' m' e').text) :
    (Number.finite s m e).equals (.finite s' m' e') = true := by
  obtain ⟨negative, body, hw⟩ := exists_isWriting (s := s) (e := e) hm.lt
  obtain ⟨negative', body', hw'⟩ := exists_isWriting (s := s') (e := e') hm'.lt
  have hlists := congrArg String.toList h
  rw [hw.toList, hw'.toList] at hlists
  obtain ⟨rfl, rfl⟩ := hw.isBody.sign_inj hw'.isBody hlists
  exact hw.equals hw' hm hm'

end Texts

end Number

end Stencil
