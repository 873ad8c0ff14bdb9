import Stencil.Token.Lexer
import Mathlib.Data.List.TakeWhile
import Mathlib.Tactic.Lemma

/-!
The rules of the lexer, one by one. What a rule has taken from a text is known exactly
(`exists_of_run`, `exists_of_path` and so on), and the rule takes it again from the front of any
text that goes on in such a way that the token ends there (`run_again`, `path_again` and so on).
Whether a name starts with one of the words that are tokens of their own is seen from the name
alone (`word_append_eq_none_iff`).

That a blank is part of no token but white space rests on the tables of characters: no blank is a
word character or a digit (`Text.not_of_isBlank`).
-/

namespace Stencil

namespace Text

/-! ### Blanks -/

/-- The code points between the bounds. -/
def codePoints : List Nat → List Nat
  | a :: b :: bounds => List.range' a (b - a) ++ codePoints bounds
  | _ => []

lemma mem_codePoints {bounds : List Nat} {n : Nat} (heven : bounds.length % 2 = 0)
    (h : inBounds bounds n = true) : n ∈ codePoints bounds := by
  fun_induction codePoints bounds with
  | case1 a b bounds ih =>
    rw [List.mem_append, List.mem_range'_1]
    simp only [inBounds] at h
    simp only [List.length_cons] at heven
    by_cases hn : n < b
    · grind
    · exact .inr (ih (by omega) (by grind))
  | case2 bounds hpair =>
    cases bounds with
    | nil => cases h
    | cons a bounds =>
      cases bounds with
      | nil => cases heven
      | cons b bounds => exact absurd rfl (hpair a b bounds)

/-- The code points of white space. -/
def blankPoints : List Nat :=
  32 :: List.range' 9 5 ++ codePoints [133, 134, 160, 161, 5760, 5761, 8192, 8203, 8232, 8234,
    8239, 8240, 8287, 8288, 12288, 12289]

lemma mem_blankPoints {c : Char} (h : isBlank c = true) : c.toNat ∈ blankPoints := by
  rw [blankPoints, List.cons_append, List.mem_cons, List.mem_append, List.mem_range'_1]
  rw [isBlank] at h
  split at h
  next =>
    simp only [Bool.or_eq_true, beq_iff_eq, Bool.and_eq_true, decide_eq_true_eq] at h
    obtain rfl | h := h
    · exact .inl rfl
    · exact .inr (.inl (by omega))
  next => exact .inr (.inr (mem_codePoints (by decide) h))

/-- A blank is part of no word and of no number. -/
lemma not_of_isBlank {c : Char} (h : isBlank c = true) : isWord c = false ∧ isDigit c = false := by
  have hpoints : ∀ n ∈ blankPoints,
      isWord (Char.ofNat n) = false ∧ isDigit (Char.ofNat n) = false := by
    decide +kernel
  have hc := hpoints c.toNat (mem_blankPoints h)
  rwa [Char.ofNat_toNat] at hc

end Text

namespace Token

open Text

/-! ### Characters of names -/

lemma toNat_of_isAlpha {c : Char} (h : c.isAlpha = true) : c.toNat < 128 := by
  have hletter : c.isUpper = true ∨ c.isLower = true := Bool.or_eq_true_iff.1 h
  obtain h | h := hletter
  · have hle : c.val ≤ 'Z'.val := (of_decide_eq_true h).2
    exact Nat.lt_of_le_of_lt (UInt32.le_iff_toNat_le.1 hle) (by decide)
  · have hle : c.val ≤ 'z'.val := of_decide_eq_true (Bool.and_eq_true_iff.1 h).2
    exact Nat.lt_of_le_of_lt (UInt32.le_iff_toNat_le.1 hle) (by decide)

lemma toNat_of_isNameStart {c : Char} (h : isNameStart c = true) : c.toNat < 128 := by
  simp only [isNameStart, Bool.or_eq_true, beq_iff_eq] at h
  obtain (h | rfl) | rfl := h
  · exact toNat_of_isAlpha h
  · decide
  · decide

/-- What a name starts with starts nothing else than a name. -/
lemma of_isNameStart {c : Char} (h : isNameStart c = true) :
    isNamePart c = true ∧ isBlank c = false ∧ isDigit c = false ∧
      c ∉ ['"', '\'', '+', '-', '.'] := by
  have hlow : ∀ n < 128, isNameStart (Char.ofNat n) = true →
      isNamePart (Char.ofNat n) = true ∧ isBlank (Char.ofNat n) = false ∧
        isDigit (Char.ofNat n) = false ∧ Char.ofNat n ∉ ['"', '\'', '+', '-', '.'] := by
    decide +kernel
  have hc := hlow c.toNat (toNat_of_isNameStart h)
  rw [Char.ofNat_toNat] at hc
  exact hc h

lemma notNamePart_of_isBlank {c : Char} (h : isBlank c = true) : isNamePart c = false := by
  have hdollar : c ≠ '$' := by
    rintro rfl
    cases h
  simpa [isNamePart, (not_of_isBlank h).1] using hdollar

lemma ne_of_isBlank {c d : Char} (h : isBlank c = true) (hd : isBlank d = false) : c ≠ d := by
  rintro rfl
  cases h.symm.trans hd

lemma isBlank_or_of_head {bs rest : List Char} (hbs : ∀ c ∈ bs, isBlank c = true) {c d : Char}
    (h : d ∈ (bs ++ c :: rest).head?) : isBlank d = true ∨ d = c := by
  cases bs with
  | nil => exact .inr (Option.some.inj h).symm
  | cons b bs =>
    obtain rfl := Option.some.inj h
    exact .inl (hbs b List.mem_cons_self)

/-! ### Fronts of texts -/

lemma takeWhile_dropWhile_of_head {p : Char → Bool} {rest : List Char}
    (h : ∀ c ∈ rest.head?, p c = false) : rest.takeWhile p = [] ∧ rest.dropWhile p = rest := by
  cases rest with
  | nil => exact ⟨rfl, rfl⟩
  | cons c cs =>
    have hc := h c rfl
    exact ⟨by simp [hc], by simp [hc]⟩

/-- What comes next comes next behind blanks, unless it is blank. -/
lemma forall_head_of_dropWhile {P : Char → Prop} {rest : List Char}
    (h : ∀ c ∈ (rest.dropWhile isBlank).head?, P c) (hblank : ∀ c, isBlank c = true → P c) :
    ∀ c ∈ rest.head?, P c := by
  cases rest with
  | nil => simp
  | cons c cs =>
    rintro d hd
    obtain rfl := Option.some.inj hd
    by_cases hc : isBlank c = true
    · exact hblank c hc
    · rw [List.dropWhile_cons_of_neg hc] at h
      exact h c rfl

lemma head_of_dropWhile {p : Char → Bool} (cs : List Char) :
    ∀ c ∈ (cs.dropWhile p).head?, p c = false := by
  induction cs with
  | nil => simp
  | cons c cs ih =>
    rw [List.dropWhile_cons]
    split
    next => exact ih
    next hc =>
      rintro d hd
      obtain rfl := Option.some.inj hd
      simpa using hc

/-! ### What a rule takes -/

section Taken

variable {cs : List Char} {l : Lexeme}

lemma exists_of_run {p : Char → Bool} (h : run p cs = some l) :
    ∃ c ds, cs = c :: ds ∧ p c = true ∧ l = ⟨c :: ds.takeWhile p, [], ds.dropWhile p⟩ := by
  cases cs with
  | nil => cases h
  | cons c ds =>
    rw [run] at h
    split at h
    next hc => exact ⟨c, ds, rfl, hc, (Option.some.inj h).symm⟩
    next => cases h

lemma exists_of_stringLiteral (h : stringLiteral cs = some l) :
    ∃ quote ds r, (quote = '"' ∨ quote = '\'') ∧ stringTail? quote ds = some r ∧
      l = ⟨quote :: r.1, [], r.2⟩ := by
  cases cs with
  | nil => cases h
  | cons quote ds =>
    rw [stringLiteral] at h
    split at h
    next hquote =>
      obtain ⟨r, hr, rfl⟩ := Option.map_eq_some_iff.1 h
      exact ⟨quote, ds, r, by simpa using hquote, hr, rfl⟩
    next => cases h

lemma eq_of_word {w : String} (h : word w cs = some l) :
    l = ⟨w.toList, [], cs.drop w.toList.length⟩ := by
  rw [word] at h
  split at h
  next => exact (Option.some.inj h).symm
  next => cases h

lemma exists_of_unsigned (h : unsigned cs = some l) :
    ∃ digits, run isDigit cs = some digits ∧
      l = ⟨digits.text ++ (fraction digits.rest).1, [], (fraction digits.rest).2⟩ := by
  obtain ⟨digits, hdigits, rfl⟩ := Option.map_eq_some_iff.1 h
  exact ⟨digits, hdigits, rfl⟩

lemma exists_of_numeral (h : numeral cs = some l) :
    ∃ sign ds l', (sign = [] ∨ sign = ['+'] ∨ sign = ['-']) ∧ cs = sign ++ ds ∧
      unsigned ds = some l' ∧ l = ⟨sign ++ l'.text, [], l'.rest⟩ := by
  cases cs with
  | nil => cases h
  | cons c ds =>
    rw [numeral] at h
    split at h
    next hsign =>
      obtain ⟨l', hl', rfl⟩ := Option.map_eq_some_iff.1 h
      obtain rfl | rfl : c = '+' ∨ c = '-' := by simpa using hsign
      · exact ⟨['+'], ds, l', by simp, rfl, hl', rfl⟩
      · exact ⟨['-'], ds, l', by simp, rfl, hl', rfl⟩
    next =>
      obtain ⟨digits, _, rfl⟩ := exists_of_unsigned h
      exact ⟨[], c :: ds, _, .inl rfl, rfl, h, rfl⟩

lemma exists_of_path (h : path cs = some l) :
    ∃ c ds, cs = c :: ds ∧ isNameStart c = true ∧
      l = ⟨c :: (pathTail ds).1, [], (pathTail ds).2⟩ := by
  cases cs with
  | nil => cases h
  | cons c ds =>
    rw [path] at h
    split at h
    next hc => exact ⟨c, ds, rfl, hc, (Option.some.inj h).symm⟩
    next => cases h

lemma blanks_of_spaced {c : Char} {cs : List Char} {r : List Char × List Char}
    (h : spaced c cs = some r) : ∃ bs, (∀ d ∈ bs, isBlank d = true) ∧ r.1 = bs ++ [c] := by
  rw [spaced] at h
  split at h
  next => cases h
  next d _ _ =>
    split at h
    next hd =>
      cases h
      exact ⟨cs.takeWhile isBlank, fun d hd => List.mem_takeWhile_imp hd, by rw [hd]⟩
    next => cases h

lemma exists_of_callOpener (h : callOpener cs = some l) :
    ∃ l₀ bs, path cs = some l₀ ∧ (∀ c ∈ bs, isBlank c = true) ∧ l.text = l₀.text ∧
      l.trail = bs ++ ['('] := by
  obtain ⟨l₀, hl₀, h⟩ := Option.bind_eq_some_iff.1 h
  obtain ⟨r, hr, rfl⟩ := Option.map_eq_some_iff.1 h
  obtain ⟨bs, hbs, htrail⟩ := blanks_of_spaced hr
  exact ⟨l₀, bs, hl₀, hbs, rfl, htrail⟩

lemma exists_of_emptyCall (h : emptyCall cs = some l) :
    ∃ l₀ bs bs', path cs = some l₀ ∧ (∀ c ∈ bs, isBlank c = true) ∧
      (∀ c ∈ bs', isBlank c = true) ∧ l.text = l₀.text ∧
      l.trail = bs ++ '(' :: (bs' ++ [')']) := by
  obtain ⟨l₁, hl₁, h⟩ := Option.bind_eq_some_iff.1 h
  obtain ⟨r, hr, rfl⟩ := Option.map_eq_some_iff.1 h
  obtain ⟨l₀, bs, hl₀, hbs, htext, htrail⟩ := exists_of_callOpener hl₁
  obtain ⟨bs', hbs', hclose⟩ := blanks_of_spaced hr
  exact ⟨l₀, bs, bs', hl₀, hbs, hbs', htext, by simp [htrail, hclose]⟩

lemma trail_of_operator (h : operator cs = some l) : l.trail = [] := by
  unfold operator at h
  split at h
  next => cases h
  next =>
    split at h <;> cases h
    rfl
  next =>
    split at h
    next =>
      cases h
      rfl
    next =>
      split at h <;> cases h
      rfl

lemma exists_of_single {c : Char} (h : single c cs = some l) :
    ∃ rest, cs = c :: rest ∧ l = ⟨[c], [], rest⟩ := by
  cases cs with
  | nil => cases h
  | cons d rest =>
    rw [single] at h
    split at h
    next hd =>
      cases hd
      exact ⟨rest, rfl, (Option.some.inj h).symm⟩
    next => cases h

end Taken

/-! ### Taken again -/

lemma run_again {p : Char → Bool} {cs : List Char} {l : Lexeme} (h : run p cs = some l)
    {rest : List Char} (hrest : ∀ c ∈ rest.head?, p c = false) :
    run p (l.text ++ rest) = some ⟨l.text, [], rest⟩ := by
  obtain ⟨c, ds, rfl, hc, rfl⟩ := exists_of_run h
  obtain ⟨htake, hdrop⟩ := takeWhile_dropWhile_of_head hrest
  have hall : ∀ d ∈ ds.takeWhile p, p d = true := fun d hd => List.mem_takeWhile_imp hd
  rw [List.cons_append, run, if_pos hc, List.takeWhile_append_of_pos hall,
    List.dropWhile_append_of_pos hall, htake, hdrop, List.append_nil]

lemma stringTail?_again {quote : Char} (hquote : quote ≠ '\\') {cs : List Char}
    {r : List Char × List Char} (h : stringTail? quote cs = some r) (rest : List Char) :
    stringTail? quote (r.1 ++ rest) = some (r.1, rest) := by
  fun_induction stringTail? quote cs generalizing r with
  | case1 => cases h
  | case2 => cases h
  | case3 c cs hc ih =>
    obtain ⟨r', hr', rfl⟩ := Option.map_eq_some_iff.1 h
    simp [stringTail?, hc, ih hr']
  | case4 cs _ =>
    cases h
    simp [stringTail?, hquote]
  | case5 => cases h
  | case6 c cs hpair hc hc' ih =>
    obtain ⟨r', hr', rfl⟩ := Option.map_eq_some_iff.1 h
    simp [stringTail?, hc, hc', ih hr']

lemma fraction_again {cs : List Char} {rest : List Char}
    (hrest : ∀ c ∈ rest.head?, isDigit c = false ∧ c ≠ '.') :
    fraction ((fraction cs).1 ++ rest) = ((fraction cs).1, rest) := by
  have hnone : fraction rest = ([], rest) := by
    unfold fraction
    split
    next => exact absurd rfl (hrest '.' rfl).2
    next => rfl
  have htail : ∀ c ∈ rest.head?, isDigit c = false := fun c hc => (hrest c hc).1
  obtain ⟨htake, hdrop⟩ := takeWhile_dropWhile_of_head htail
  rw [fraction.eq_def cs]
  split
  next cs =>
    split
    next => exact hnone
    next hdigits =>
      have hall : ∀ d ∈ cs.takeWhile isDigit, isDigit d = true :=
        fun d hd => List.mem_takeWhile_imp hd
      rw [List.cons_append, fraction, List.takeWhile_append_of_pos hall,
        List.dropWhile_append_of_pos hall, htake, hdrop, List.append_nil, if_neg hdigits]
  next => exact hnone

lemma unsigned_again {cs : List Char} {l : Lexeme} (h : unsigned cs = some l) {rest : List Char}
    (hrest : ∀ c ∈ rest.head?, isDigit c = false ∧ c ≠ '.') :
    unsigned (l.text ++ rest) = some ⟨l.text, [], rest⟩ := by
  obtain ⟨digits, hdigits, rfl⟩ := exists_of_unsigned h
  have hfraction : ∀ c ∈ ((fraction digits.rest).1 ++ rest).head?, isDigit c = false := by
    cases hpoint : (fraction digits.rest).1 with
    | nil => exact fun c hc => (hrest c hc).1
    | cons c cs =>
      rintro d hd
      obtain rfl := Option.some.inj hd
      unfold fraction at hpoint
      split at hpoint
      next =>
        split at hpoint
        next => cases hpoint
        next =>
          cases hpoint
          decide
      next => cases hpoint
  have hagain := run_again hdigits hfraction
  dsimp only
  rw [unsigned, List.append_assoc, hagain]
  simp [fraction_again hrest]

/-- A number without a sign starts with a digit. -/
lemma head_of_unsigned {cs : List Char} {l : Lexeme} (h : unsigned cs = some l) :
    ∃ c tail, l.text = c :: tail ∧ isDigit c = true := by
  obtain ⟨digits, hdigits, rfl⟩ := exists_of_unsigned h
  obtain ⟨c, ds, rfl, hc, rfl⟩ := exists_of_run hdigits
  exact ⟨c, _, rfl, hc⟩

lemma numeral_again {cs : List Char} {l : Lexeme} (h : numeral cs = some l) {rest : List Char}
    (hrest : ∀ c ∈ rest.head?, isDigit c = false ∧ c ≠ '.') :
    numeral (l.text ++ rest) = some ⟨l.text, [], rest⟩ := by
  obtain ⟨sign, ds, l', hsign, rfl, hl', rfl⟩ := exists_of_numeral h
  have hagain := unsigned_again hl' hrest
  obtain rfl | rfl | rfl := hsign
  · obtain ⟨c, tail, htext, hc⟩ := head_of_unsigned hl'
    have hne : ¬ (c = '+' || c = '-') = true := by
      have hmarks : isDigit '+' = false ∧ isDigit '-' = false := by decide
      rintro hsign
      obtain rfl | rfl : c = '+' ∨ c = '-' := by simpa using hsign
      · cases hc.symm.trans hmarks.1
      · cases hc.symm.trans hmarks.2
    rw [htext] at hagain
    dsimp only
    rw [List.nil_append, htext, List.cons_append, numeral, if_neg hne]
    exact hagain
  · simp [numeral, hagain]
  · simp [numeral, hagain]

lemma pathTail_of_head {rest : List Char}
    (hrest : ∀ c ∈ rest.head?, isNamePart c = false ∧ c ≠ '.') : pathTail rest = ([], rest) := by
  cases rest with
  | nil => rfl
  | cons c cs => cases cs <;> simp [pathTail, hrest c rfl]

lemma pathTail_cons {c : Char} (hc : isNamePart c = true) (cs : List Char) :
    pathTail (c :: cs) = (c :: (pathTail cs).1, (pathTail cs).2) := by
  cases cs with
  | nil => simp [pathTail, hc]
  | cons d cs => simp [pathTail, hc]

lemma pathTail_again (cs : List Char) {rest : List Char}
    (hrest : ∀ c ∈ rest.head?, isNamePart c = false ∧ c ≠ '.') :
    pathTail ((pathTail cs).1 ++ rest) = ((pathTail cs).1, rest) := by
  have hnil := pathTail_of_head hrest
  fun_induction pathTail cs with
  | case1 => exact hnil
  | case2 c hc => simp [pathTail_cons hc, hnil]
  | case3 => exact hnil
  | case4 c d cs hc r ih => simp [pathTail_cons hc, r, ih]
  | case5 c d cs hc hdot r ih =>
    have hpoint : isNamePart '.' = false := by decide
    have hd : isNameStart d = true := (Bool.and_eq_true_iff.1 hdot).2
    simp [pathTail, hpoint, hd, r, ih]
  | case6 => exact hnil

lemma path_again {cs : List Char} {l : Lexeme} (h : path cs = some l) {rest : List Char}
    (hrest : ∀ c ∈ rest.head?, isNamePart c = false ∧ c ≠ '.') :
    path (l.text ++ rest) = some ⟨l.text, [], rest⟩ := by
  obtain ⟨c, ds, rfl, hc, rfl⟩ := exists_of_path h
  simp [path, hc, pathTail_again ds hrest]

lemma head_of_pathTail (cs : List Char) : ∀ c ∈ (pathTail cs).2.head?, isNamePart c = false := by
  fun_induction pathTail cs with
  | case1 => simp
  | case2 => simp
  | case3 c hc => simpa using hc
  | case4 c d cs hc r ih => exact ih
  | case5 c d cs hc hdot r ih => exact ih
  | case6 c d cs hc => simpa using hc

/-- Behind a name no part of it comes next. -/
lemma head_of_path {cs : List Char} {l : Lexeme} (h : path cs = some l) :
    ∀ c ∈ l.rest.head?, isNamePart c = false := by
  obtain ⟨c, ds, rfl, _, rfl⟩ := exists_of_path h
  exact head_of_pathTail ds

lemma spaced_append_cons {bs : List Char} (hbs : ∀ c ∈ bs, isBlank c = true) {c : Char}
    (hc : isBlank c = false) (rest : List Char) :
    spaced c (bs ++ c :: rest) = some (bs ++ [c], rest) := by
  have hdrop : (bs ++ c :: rest).dropWhile isBlank = c :: rest := by
    rw [List.dropWhile_append_of_pos hbs, List.dropWhile_cons_of_neg (by simp [hc])]
  have htake : (bs ++ c :: rest).takeWhile isBlank = bs := by
    rw [List.takeWhile_append_of_pos hbs, List.takeWhile_cons_of_neg (by simp [hc]),
      List.append_nil]
  simp only [spaced, hdrop, htake, if_true]

lemma spaced_eq_none {c : Char} {rest : List Char}
    (h : ∀ d ∈ (rest.dropWhile isBlank).head?, d ≠ c) : spaced c rest = none := by
  rw [spaced]
  split
  next => rfl
  next d _ hd =>
    rw [hd] at h
    rw [if_neg (h d rfl)]

lemma callOpener_again {cs : List Char} {l : Lexeme} (h : path cs = some l) {bs : List Char}
    (hbs : ∀ c ∈ bs, isBlank c = true) (rest : List Char) :
    callOpener (l.text ++ (bs ++ '(' :: rest)) = some ⟨l.text, bs ++ ['('], rest⟩ := by
  have hopen : ∀ c ∈ (bs ++ '(' :: rest).head?, isNamePart c = false ∧ c ≠ '.' := by
    intro c hc
    obtain hblank | rfl := isBlank_or_of_head hbs hc
    · exact ⟨notNamePart_of_isBlank hblank, ne_of_isBlank hblank (by decide)⟩
    · decide
  rw [callOpener, path_again h hopen, Option.bind_some, spaced_append_cons hbs (by decide)]
  rfl

/-! ### Words -/

/-- Whether a name starts with a word is seen from the name. -/
lemma word_append_eq_none_iff {w : String} (hw : ∀ c ∈ w.toList, isNamePart c = true)
    {text more : List Char} (hmore : ∀ c ∈ more.head?, isNamePart c = false) :
    word w (text ++ more) = none ↔
      ¬ (w.toList <+: text ∧ ∀ c ∈ (text.drop w.toList.length).head?, isWord c = false) := by
  have hmore' : ∀ c ∈ more.head?, isWord c = false := fun c hc => by
    have hpart := hmore c hc
    rw [isNamePart, Bool.or_eq_false_iff] at hpart
    exact hpart.1
  have hword : word w (text ++ more) = none ↔ ¬ (w.toList <+: text ++ more ∧
      ∀ c ∈ ((text ++ more).drop w.toList.length).head?, isWord c = false) := by
    rw [word, ite_eq_right_iff, Bool.and_eq_true, List.isPrefixOf_iff_prefix]
    cases ((text ++ more).drop w.toList.length).head? <;> simp
  rw [hword]
  by_cases hfront : w.toList <+: text
  · have hdrop : (text ++ more).drop w.toList.length = text.drop w.toList.length ++ more :=
      List.drop_append_of_le_length hfront.length_le
    rw [hdrop]
    cases htail : text.drop w.toList.length with
    | nil => simpa [hfront, hfront.trans (List.prefix_append text more)] using hmore'
    | cons c cs => simp [hfront, hfront.trans (List.prefix_append text more)]
  -- A word that is longer than the name would go on with parts of a name behind it.
  · have hnot : ¬ w.toList <+: text ++ more := fun hlong => by
      obtain hshort | ⟨ds, hds⟩ :=
        List.prefix_or_prefix_of_prefix hlong (List.prefix_append text more)
      · exact hfront hshort
      · rw [← hds, List.prefix_append_right_inj] at hlong
        cases ds with
        | nil => exact hfront (by simp [← hds])
        | cons d ds =>
          obtain ⟨tail, rfl⟩ := hlong
          have hpart := hw d (by rw [← hds]; simp)
          rw [hmore d rfl] at hpart
          cases hpart
    simp [hfront, hnot]

/-! ### Ends of tokens -/

lemma last_of_forall {cs : List Char} (hne : cs ≠ []) (h : ∀ c ∈ cs, isBlank c = false) :
    ∃ before c, cs = before ++ [c] ∧ isBlank c = false := by
  obtain rfl | ⟨before, c, rfl⟩ := List.eq_nil_or_concat cs
  · exact absurd rfl hne
  · exact ⟨before, c, by simp, h c (by simp)⟩

lemma last_of_stringTail? {quote : Char} {cs : List Char} {r : List Char × List Char}
    (h : stringTail? quote cs = some r) : ∃ before, r.1 = before ++ [quote] := by
  fun_induction stringTail? quote cs generalizing r with
  | case1 => cases h
  | case2 => cases h
  | case3 c cs _ ih =>
    obtain ⟨r', hr', rfl⟩ := Option.map_eq_some_iff.1 h
    obtain ⟨before, hbefore⟩ := ih hr'
    exact ⟨'\\' :: c :: before, by simp [hbefore]⟩
  | case4 cs =>
    cases h
    exact ⟨[], rfl⟩
  | case5 => cases h
  | case6 c cs _ _ _ ih =>
    obtain ⟨r', hr', rfl⟩ := Option.map_eq_some_iff.1 h
    obtain ⟨before, hbefore⟩ := ih hr'
    exact ⟨c :: before, by simp [hbefore]⟩

lemma isBlank_of_isDigit {c : Char} (h : isDigit c = true) : isBlank c = false := by
  cases hblank : isBlank c with
  | false => rfl
  | true => cases h.symm.trans (not_of_isBlank hblank).2

lemma isBlank_of_isNamePart {c : Char} (h : isNamePart c = true) : isBlank c = false := by
  cases hblank : isBlank c with
  | false => rfl
  | true => cases h.symm.trans (notNamePart_of_isBlank hblank)

lemma notBlank_of_unsigned {cs : List Char} {l : Lexeme} (h : unsigned cs = some l) :
    ∀ c ∈ l.text, isBlank c = false := by
  obtain ⟨digits, hdigits, rfl⟩ := exists_of_unsigned h
  obtain ⟨c, ds, rfl, hc, rfl⟩ := exists_of_run hdigits
  refine List.forall_mem_append.2 ⟨List.forall_mem_cons.2 ⟨isBlank_of_isDigit hc, fun d hd =>
    isBlank_of_isDigit (List.mem_takeWhile_imp hd)⟩, ?_⟩
  unfold fraction
  split
  next =>
    split
    next => simp
    next =>
      exact List.forall_mem_cons.2
        ⟨by decide, fun d hd => isBlank_of_isDigit (List.mem_takeWhile_imp hd)⟩
  next => simp

lemma notBlank_of_numeral {cs : List Char} {l : Lexeme} (h : numeral cs = some l) :
    ∀ c ∈ l.text, isBlank c = false := by
  obtain ⟨sign, ds, l', hsign, rfl, hl', rfl⟩ := exists_of_numeral h
  refine List.forall_mem_append.2 ⟨?_, notBlank_of_unsigned hl'⟩
  obtain rfl | rfl | rfl := hsign
  · simp
  · exact List.forall_mem_singleton.2 (by decide)
  · exact List.forall_mem_singleton.2 (by decide)

lemma notBlank_of_pathTail (cs : List Char) : ∀ c ∈ (pathTail cs).1, isBlank c = false := by
  fun_induction pathTail cs with
  | case1 => simp
  | case2 c hc => simpa using isBlank_of_isNamePart hc
  | case3 => simp
  | case4 c d cs hc r ih => exact List.forall_mem_cons.2 ⟨isBlank_of_isNamePart hc, ih⟩
  | case5 c d cs _ hdot r ih =>
    have hd : isNameStart d = true := (Bool.and_eq_true_iff.1 hdot).2
    exact List.forall_mem_cons.2
      ⟨by decide, List.forall_mem_cons.2 ⟨(of_isNameStart hd).2.1, ih⟩⟩
  | case6 => simp

lemma notBlank_of_path {cs : List Char} {l : Lexeme} (h : path cs = some l) :
    ∀ c ∈ l.text, isBlank c = false := by
  obtain ⟨c, ds, rfl, hc, rfl⟩ := exists_of_path h
  exact List.forall_mem_cons.2 ⟨(of_isNameStart hc).2.1, notBlank_of_pathTail ds⟩

end Token

end Stencil
