import Stencil.Proofs.Lexing.Part

/-!
Scanning the first token of a text. `Scanned` says which rule has found the token, so that what is
known of the rules is known of tokens. A token is scanned again from any text that starts with it,
as long as what comes behind **separates** it (`Separates`), which is seen from the next character
other than a blank (`Allows`); the blanks that belong to the token may be others (`Trails`). This is
`scan?_again`.
-/

namespace Stencil

namespace Token

open Text

/-! ### The rule that is found -/

lemma firstMatch?_append {before after : List (TokenKind × Rule)} {cs : List Char}
    (h : ∀ q ∈ before, q.2 cs = none) :
    firstMatch? (before ++ after) cs = firstMatch? after cs := by
  induction before with
  | nil => rfl
  | cons q before ih =>
    rw [List.forall_mem_cons] at h
    rw [List.cons_append, firstMatch?, h.1]
    exact ih h.2

/-- The rules before those of the kind that is found have not matched. -/
lemma eq_none_of_firstMatch? {before after : List (TokenKind × Rule)} {cs : List Char}
    {k : TokenKind} {l : Lexeme} (h : firstMatch? (before ++ after) cs = some (k, l))
    (hk : k ∉ before.map Prod.fst) : ∀ q ∈ before, q.2 cs = none := by
  induction before with
  | nil => simp
  | cons q before ih =>
    rw [List.map_cons, List.mem_cons, not_or] at hk
    rw [List.cons_append, firstMatch?] at h
    split at h
    next =>
      cases h
      exact absurd rfl hk.1
    next hnone => exact List.forall_mem_cons.2 ⟨hnone, ih h hk.2⟩

/-- The tokens that consist of one character, and start nothing else. -/
def singles : List (TokenKind × Char) := [
  (.parenOpen, '('), (.parenClose, ')'), (.bracketOpen, '['), (.bracketClose, ']'),
  (.curlyOpen, '\x7b'), (.curlyClose, '\x7d'), (.comma, ','), (.colon, ':')]

lemma scan?_single {k : TokenKind} {c : Char} (h : (k, c) ∈ singles) (rest : List Char) :
    scan? (c :: rest) = some (k, ⟨[c], [], rest⟩) := by
  simp only [singles, List.mem_cons, Prod.mk.injEq, List.not_mem_nil, or_false] at h
  rcases h with ⟨rfl, rfl⟩ | ⟨rfl, rfl⟩ | ⟨rfl, rfl⟩ | ⟨rfl, rfl⟩ | ⟨rfl, rfl⟩ | ⟨rfl, rfl⟩ |
    ⟨rfl, rfl⟩ | ⟨rfl, rfl⟩
  all_goals cases rest <;> rfl

/-- The words that are tokens of their own. -/
def words : List (TokenKind × String) :=
  [(.bool, "true"), (.bool, "false"), (.nothing, "none"), (.nothing, "null")]

lemma isNamePart_of_mem_words {k : TokenKind} {w : String} (h : (k, w) ∈ words) :
    ∀ c ∈ w.toList, isNamePart c = true := by
  have hwords : ∀ p ∈ words, p.2.toList.all isNamePart = true := by decide
  exact List.all_eq_true.1 (hwords _ h)

/-- **The way in which a token has been scanned.** -/
inductive Scanned (cs : List Char) (l : Lexeme) : TokenKind → Prop
  | blank : run isBlank cs = some l → Scanned cs l .blank
  | string : stringLiteral cs = some l → Scanned cs l .string
  | word {k : TokenKind} {w : String} : (k, w) ∈ words → word w cs = some l → Scanned cs l k
  | number : numeral cs = some l → Scanned cs l .number
  | emptyCall : Token.emptyCall cs = some l → Scanned cs l .emptyCall
  | call : callOpener cs = some l → Scanned cs l .call
  | path : Token.path cs = some l → Scanned cs l .path
  | operator : Token.operator cs = some l → Scanned cs l .operator
  | assignment : single '=' cs = some l → Scanned cs l .assignment
  | single {k : TokenKind} {c : Char} : (k, c) ∈ singles → single c cs = some l → Scanned cs l k

lemma scanned_of_scan? {cs : List Char} {k : TokenKind} {l : Lexeme} (h : scan? cs = some (k, l)) :
    Scanned cs l k := by
  obtain ⟨r, hr, hl⟩ := firstMatch?_mem h
  simp only [rules, List.mem_cons, Prod.mk.injEq, List.not_mem_nil, or_false] at hr
  rcases hr with ⟨rfl, rfl⟩ | ⟨rfl, rfl⟩ | ⟨rfl, rfl⟩ | ⟨rfl, rfl⟩ | ⟨rfl, rfl⟩ | ⟨rfl, rfl⟩ |
    ⟨rfl, rfl⟩ | ⟨rfl, rfl⟩ | ⟨rfl, rfl⟩ | ⟨rfl, rfl⟩ | ⟨rfl, rfl⟩ | ⟨rfl, rfl⟩ | ⟨rfl, rfl⟩ |
    ⟨rfl, rfl⟩ | ⟨rfl, rfl⟩ | ⟨rfl, rfl⟩ | ⟨rfl, rfl⟩ | ⟨rfl, rfl⟩
  · exact .blank hl
  · exact .string hl
  · obtain hl | ⟨_, hl⟩ := Option.or_eq_some_iff.1 hl
    · exact .word (w := "true") (by decide) hl
    · exact .word (w := "false") (by decide) hl
  · obtain hl | ⟨_, hl⟩ := Option.or_eq_some_iff.1 hl
    · exact .word (w := "none") (by decide) hl
    · exact .word (w := "null") (by decide) hl
  · exact .number hl
  · exact .emptyCall hl
  · exact .call hl
  · exact .path hl
  · exact .operator hl
  · exact .assignment hl
  all_goals exact .single (by decide) hl

/-! ### What comes before names -/

lemma scan?_early (n : Nat) {cs : List Char} {l : Lexeme} {k : TokenKind}
    (h : scan? cs = some (k, l)) (hk : k ∉ (rules.take n).map Prod.fst) :
    ∀ q ∈ rules.take n, q.2 cs = none := by
  rw [scan?, ← List.take_append_drop n rules] at h
  exact eq_none_of_firstMatch? h hk

lemma scan?_of_early {cs : List Char} (h : ∀ q ∈ rules.take 5, q.2 cs = none) :
    scan? cs = firstMatch? (rules.drop 5) cs := by
  have hsplit : scan? cs = firstMatch? (rules.take 5 ++ rules.drop 5) cs := by
    rw [List.take_append_drop, scan?]
  rw [hsplit, firstMatch?_append h]

/-- Of what is tried before names, only the words start like one. -/
lemma early_iff {c : Char} (hc : isNameStart c = true) (cs : List Char) :
    (∀ q ∈ rules.take 5, q.2 (c :: cs) = none) ↔ ∀ p ∈ words, word p.2 (c :: cs) = none := by
  obtain ⟨_, hblank, hdigit, hmarks⟩ := of_isNameStart hc
  simp only [List.mem_cons, List.not_mem_nil, or_false, not_or] at hmarks
  obtain ⟨hdouble, hquote, hplus, hminus, _⟩ := hmarks
  simp [rules, words, either, run, stringLiteral, numeral, unsigned, hblank, hdigit, hdouble,
    hquote, hplus, hminus, and_assoc]

/-- What is tried before names matches no name, unless it has matched it before. -/
lemma early_eq_none {cs : List Char} {l : Lexeme} (h : path cs = some l)
    (hearly : ∀ q ∈ rules.take 5, q.2 cs = none) {more : List Char}
    (hmore : ∀ c ∈ more.head?, isNamePart c = false) :
    ∀ q ∈ rules.take 5, q.2 (l.text ++ more) = none := by
  have hcs : l.text ++ l.rest = cs := by simpa [path_trail h] using (cuts_path cs l h).parts
  obtain ⟨c, ds, hstart, hc, hl⟩ := exists_of_path h
  have hfront : l.text ++ more = c :: ((pathTail ds).1 ++ more) := by rw [hl, List.cons_append]
  rw [hstart, early_iff hc] at hearly
  rw [hfront, early_iff hc]
  intro p hp
  have hnone := hearly p hp
  rw [← hstart, ← hcs, word_append_eq_none_iff (isNamePart_of_mem_words hp) (head_of_path h)]
    at hnone
  rwa [← hfront, word_append_eq_none_iff (isNamePart_of_mem_words hp) hmore]

/-! ### Scanning again -/

/-- What belongs to a token behind its text: the parentheses of a call, and blanks before them. -/
def Trails : TokenKind → List Char → Prop
  | .call, trail => ∃ bs, (∀ c ∈ bs, isBlank c = true) ∧ trail = bs ++ ['(']
  | .emptyCall, trail => ∃ bs bs', (∀ c ∈ bs, isBlank c = true) ∧ (∀ c ∈ bs', isBlank c = true) ∧
      trail = bs ++ '(' :: (bs' ++ [')'])
  | _, trail => trail = []

/-- The character may be the next one behind a token, blanks aside. -/
def Allows : TokenKind → Char → Prop
  | .bool, c | .nothing, c => isWord c = false
  | .number, c => isDigit c = false ∧ c ≠ '.'
  | .path, c => isNamePart c = false ∧ c ≠ '.' ∧ c ≠ '('
  | .call, c => c ≠ ')'
  | .assignment, c => c ≠ '='
  | _, _ => True

/-- A token ends before the text. -/
def Separates : TokenKind → List Char → Prop
  | .blank, rest => ∀ c ∈ rest.head?, isBlank c = false
  | k, rest => ∀ c ∈ (rest.dropWhile isBlank).head?, Allows k c

section Names

variable {cs bs bs' rest : List Char} {l : Lexeme}

/-- Before a parenthesis a name ends. -/
lemma early_eq_none_of_paren (h : path cs = some l) (hearly : ∀ q ∈ rules.take 5, q.2 cs = none)
    (hbs : ∀ c ∈ bs, isBlank c = true) :
    ∀ q ∈ rules.take 5, q.2 (l.text ++ (bs ++ '(' :: rest)) = none := by
  refine early_eq_none h hearly fun c hc => ?_
  obtain hblank | rfl := isBlank_or_of_head hbs hc
  · exact notNamePart_of_isBlank hblank
  · decide

lemma scan?_emptyCall (h : path cs = some l) (hearly : ∀ q ∈ rules.take 5, q.2 cs = none)
    (hbs : ∀ c ∈ bs, isBlank c = true) (hbs' : ∀ c ∈ bs', isBlank c = true) :
    scan? (l.text ++ (bs ++ '(' :: (bs' ++ ')' :: rest))) =
      some (.emptyCall, ⟨l.text, bs ++ '(' :: (bs' ++ [')']), rest⟩) := by
  have hmatch : emptyCall (l.text ++ (bs ++ '(' :: (bs' ++ ')' :: rest))) =
      some ⟨l.text, bs ++ '(' :: (bs' ++ [')']), rest⟩ := by
    rw [emptyCall, callOpener_again h hbs, Option.bind_some, spaced_append_cons hbs' (by decide)]
    simp
  rw [scan?_of_early (early_eq_none_of_paren h hearly hbs)]
  simp [rules, firstMatch?, hmatch]

lemma scan?_call (h : path cs = some l) (hearly : ∀ q ∈ rules.take 5, q.2 cs = none)
    (hbs : ∀ c ∈ bs, isBlank c = true) (hrest : ∀ c ∈ (rest.dropWhile isBlank).head?, c ≠ ')') :
    scan? (l.text ++ (bs ++ '(' :: rest)) = some (.call, ⟨l.text, bs ++ ['('], rest⟩) := by
  have hmatch := callOpener_again h hbs rest
  have hempty : emptyCall (l.text ++ (bs ++ '(' :: rest)) = none := by
    rw [emptyCall, hmatch, Option.bind_some, spaced_eq_none hrest]
    rfl
  rw [scan?_of_early (early_eq_none_of_paren h hearly hbs)]
  simp [rules, firstMatch?, hempty, hmatch]

lemma scan?_path (h : path cs = some l) (hearly : ∀ q ∈ rules.take 5, q.2 cs = none)
    (hrest : ∀ c ∈ (rest.dropWhile isBlank).head?, Allows .path c) :
    scan? (l.text ++ rest) = some (.path, ⟨l.text, [], rest⟩) := by
  have hhead : ∀ c ∈ rest.head?, isNamePart c = false ∧ c ≠ '.' :=
    forall_head_of_dropWhile (fun c hc => ⟨(hrest c hc).1, (hrest c hc).2.1⟩)
      fun c hc => ⟨notNamePart_of_isBlank hc, ne_of_isBlank hc (by decide)⟩
  have hmatch := path_again h hhead
  have hcall : callOpener (l.text ++ rest) = none := by
    rw [callOpener, hmatch, Option.bind_some, spaced_eq_none fun c hc => (hrest c hc).2.2]
    rfl
  have hempty : emptyCall (l.text ++ rest) = none := by
    rw [emptyCall, hcall]
    rfl
  rw [scan?_of_early (early_eq_none h hearly fun c hc => (hhead c hc).1)]
  simp [rules, firstMatch?, hempty, hcall, hmatch]

end Names

lemma scan?_string {quote : Char} (hquote : quote = '"' ∨ quote = '\'') {cs rest : List Char}
    {r : List Char × List Char} (h : stringTail? quote cs = some r) :
    scan? (quote :: (r.1 ++ rest)) = some (.string, ⟨quote :: r.1, [], rest⟩) := by
  have hne : quote ≠ '\\' := by
    rintro rfl
    simp at hquote
  have hblank : isBlank quote = false := by
    obtain rfl | rfl := hquote <;> decide
  have htail := stringTail?_again hne h rest
  simp [scan?, rules, firstMatch?, run, stringLiteral, hblank, hquote, htail]

lemma scan?_word {rest : List Char} (hrest : ∀ c ∈ rest.head?, isWord c = false) {k : TokenKind}
    {w : String} (h : (k, w) ∈ words) :
    scan? (w.toList ++ rest) = some (k, ⟨w.toList, [], rest⟩) := by
  have hword (w : String) : word w (w.toList ++ rest) = some ⟨w.toList, [], rest⟩ := by
    have hhead : rest.head?.any isWord = false := by
      cases hc : rest.head? with
      | none => rfl
      | some c => exact hrest c hc
    simp [word, hhead]
  have hmatch := hword w
  have htrue : word "true" ("false".toList ++ rest) = none := rfl
  have hnone : word "none" ("null".toList ++ rest) = none := rfl
  simp only [words, List.mem_cons, Prod.mk.injEq, List.not_mem_nil, or_false] at h
  rcases h with ⟨rfl, rfl⟩ | ⟨rfl, rfl⟩ | ⟨rfl, rfl⟩ | ⟨rfl, rfl⟩
  all_goals
    simp only [scan?, rules, firstMatch?, either, hmatch, htrue, hnone]
    rfl

lemma word_cons_eq_none {w : String} {c d : Char} {ds : List Char} (hw : w.toList = d :: ds)
    (h : c ≠ d) (cs : List Char) : word w (c :: cs) = none := by
  simp [word, hw, List.isPrefixOf, Ne.symm h]

/-- A number starts with a sign or a digit. -/
lemma head_of_numeral {cs : List Char} {l : Lexeme} (h : numeral cs = some l) :
    ∃ c tail, l.text = c :: tail ∧ (c = '+' ∨ c = '-' ∨ isDigit c = true) := by
  obtain ⟨sign, ds, l', hsign, rfl, hl', rfl⟩ := exists_of_numeral h
  obtain ⟨c, tail, htext, hc⟩ := head_of_unsigned hl'
  obtain rfl | rfl | rfl := hsign
  · exact ⟨c, tail, htext, .inr (.inr hc)⟩
  · exact ⟨'+', l'.text, rfl, .inl rfl⟩
  · exact ⟨'-', l'.text, rfl, .inr (.inl rfl)⟩

/-- What starts like a number is a number. -/
lemma scan?_of_numeral {cs : List Char} {l : Lexeme} (h : numeral cs = some l) :
    scan? cs = some (.number, l) := by
  obtain ⟨c, tail, htext, hc⟩ := head_of_numeral h
  have hcs := (cuts_numeral cs l h).parts
  rw [htext, List.cons_append] at hcs
  subst hcs
  obtain ⟨hblank, hne⟩ : isBlank c = false ∧ c ∉ ['"', '\'', 't', 'f', 'n'] := by
    obtain rfl | rfl | hdigit := hc
    · decide
    · decide
    · refine ⟨isBlank_of_isDigit hdigit, fun hmem => ?_⟩
      simp only [List.mem_cons, List.not_mem_nil, or_false] at hmem
      obtain rfl | rfl | rfl | rfl | rfl := hmem <;> exact absurd hdigit (by decide)
  simp only [List.mem_cons, List.not_mem_nil, or_false, not_or] at hne
  obtain ⟨hdouble, hquote, ht, hf, hn⟩ := hne
  simp [scan?, rules, firstMatch?, run, stringLiteral, either, hblank, hdouble, hquote, h,
    word_cons_eq_none (w := "true") rfl ht, word_cons_eq_none (w := "false") rfl hf,
    word_cons_eq_none (w := "none") rfl hn, word_cons_eq_none (w := "null") rfl hn]

lemma scan?_number {cs : List Char} {l : Lexeme} (h : numeral cs = some l) {rest : List Char}
    (hrest : ∀ c ∈ rest.head?, isDigit c = false ∧ c ≠ '.') :
    scan? (l.text ++ rest) = some (.number, ⟨l.text, [], rest⟩) :=
  scan?_of_numeral (numeral_again h hrest)

lemma scan?_assignment {rest : List Char} (hrest : ∀ c ∈ rest.head?, c ≠ '=') :
    scan? ('=' :: rest) = some (.assignment, ⟨['='], [], rest⟩) := by
  cases rest with
  | nil => rfl
  | cons c cs =>
    have hlonger : operator ('=' :: c :: cs) = none := by
      simp [operator, longOperators, shortOperators, hrest c rfl]
    simp only [scan?, rules, firstMatch?, hlonger]
    rfl

lemma trails_iff_of_mem_singles {k : TokenKind} {c : Char} {trail : List Char}
    (h : (k, c) ∈ singles) : Trails k trail ↔ trail = [] := by
  simp only [singles, List.mem_cons, Prod.mk.injEq, List.not_mem_nil, or_false] at h
  rcases h with ⟨rfl, _⟩ | ⟨rfl, _⟩ | ⟨rfl, _⟩ | ⟨rfl, _⟩ | ⟨rfl, _⟩ | ⟨rfl, _⟩ | ⟨rfl, _⟩ |
    ⟨rfl, _⟩ <;> exact .rfl

lemma kind_of_mem_words {k : TokenKind} {w : String} (h : (k, w) ∈ words) :
    k = .bool ∨ k = .nothing := by
  simp only [words, List.mem_cons, Prod.mk.injEq, List.not_mem_nil, or_false] at h
  grind

lemma trails_of_mem_words {k : TokenKind} {w : String} {trail : List Char} (h : (k, w) ∈ words)
    (htrail : Trails k trail) : trail = [] := by
  obtain rfl | rfl := kind_of_mem_words h <;> exact htrail

lemma allows_of_mem_words {k : TokenKind} {w : String} {rest : List Char} (h : (k, w) ∈ words)
    (hrest : Separates k rest) : ∀ c ∈ (rest.dropWhile isBlank).head?, isWord c = false := by
  obtain rfl | rfl := kind_of_mem_words h <;> exact hrest

/-- **A token is scanned again**, whatever comes behind it, as long as it ends there. -/
theorem scan?_again {cs : List Char} {k : TokenKind} {l : Lexeme} (h : scan? cs = some (k, l))
    (hk : k ≠ .operator) {trail rest : List Char} (htrail : Trails k trail)
    (hrest : Separates k rest) :
    scan? (l.text ++ (trail ++ rest)) = some (k, ⟨l.text, trail, rest⟩) := by
  cases scanned_of_scan? h with
  | blank hl =>
    cases htrail
    simp [scan?, rules, firstMatch?, run_again hl hrest]
  | string hl =>
    cases htrail
    obtain ⟨quote, ds, r, hquote, hr, rfl⟩ := exists_of_stringLiteral hl
    exact scan?_string hquote hr
  | word hw hl =>
    rw [trails_of_mem_words hw htrail, eq_of_word hl]
    exact scan?_word (forall_head_of_dropWhile (allows_of_mem_words hw hrest)
      fun c hc => (not_of_isBlank hc).1) hw
  | number hl =>
    cases htrail
    exact scan?_number hl (forall_head_of_dropWhile hrest fun c hc =>
      ⟨(not_of_isBlank hc).2, ne_of_isBlank hc (by decide)⟩)
  | emptyCall hl =>
    obtain ⟨l₀, _, _, hl₀, _, _, htext, _⟩ := exists_of_emptyCall hl
    obtain ⟨bs, bs', hbs, hbs', rfl⟩ := htrail
    rw [htext]
    simpa using scan?_emptyCall hl₀ (scan?_early 5 h (by decide)) hbs hbs'
  | call hl =>
    obtain ⟨l₀, _, hl₀, _, htext, _⟩ := exists_of_callOpener hl
    obtain ⟨bs, hbs, rfl⟩ := htrail
    rw [htext]
    simpa using scan?_call hl₀ (scan?_early 5 h (by decide)) hbs hrest
  | path hl =>
    cases htrail
    exact scan?_path hl (scan?_early 5 h (by decide)) hrest
  | operator => exact absurd rfl hk
  | assignment hl =>
    cases htrail
    obtain ⟨_, rfl, rfl⟩ := exists_of_single hl
    exact scan?_assignment (forall_head_of_dropWhile hrest fun c hc => ne_of_isBlank hc (by decide))
  | single hc hl =>
    obtain ⟨_, rfl, rfl⟩ := exists_of_single hl
    rw [(trails_iff_of_mem_singles hc).1 htrail]
    exact scan?_single hc rest

/-! ### What is known of a token -/

section Known

variable {cs : List Char} {k : TokenKind} {l : Lexeme}

lemma trails_of_scan? (h : scan? cs = some (k, l)) : Trails k l.trail := by
  cases scanned_of_scan? h with
  | blank hl =>
    obtain ⟨_, _, _, _, rfl⟩ := exists_of_run hl
    rfl
  | string hl =>
    obtain ⟨_, _, _, _, _, rfl⟩ := exists_of_stringLiteral hl
    rfl
  | word hw hl =>
    rw [eq_of_word hl]
    obtain rfl | rfl := kind_of_mem_words hw <;> rfl
  | number hl =>
    obtain ⟨_, _, _, _, _, _, rfl⟩ := exists_of_numeral hl
    rfl
  | emptyCall hl =>
    obtain ⟨_, bs, bs', _, hbs, hbs', _, htrail⟩ := exists_of_emptyCall hl
    exact ⟨bs, bs', hbs, hbs', htrail⟩
  | call hl =>
    obtain ⟨_, bs, _, hbs, _, htrail⟩ := exists_of_callOpener hl
    exact ⟨bs, hbs, htrail⟩
  | path hl => exact path_trail hl
  | operator hl => exact trail_of_operator hl
  | assignment hl =>
    obtain ⟨_, _, rfl⟩ := exists_of_single hl
    rfl
  | single hc hl =>
    obtain ⟨_, _, rfl⟩ := exists_of_single hl
    exact (trails_iff_of_mem_singles hc).2 rfl

/-- Behind white space none comes next. -/
lemma head_of_blank (h : scan? cs = some (.blank, l)) :
    (∀ c ∈ l.text, isBlank c = true) ∧ ∀ c ∈ l.rest.head?, isBlank c = false := by
  cases scanned_of_scan? h with
  | blank hl =>
    obtain ⟨c, ds, rfl, hc, rfl⟩ := exists_of_run hl
    exact ⟨List.forall_mem_cons.2 ⟨hc, fun d hd => List.mem_takeWhile_imp hd⟩,
      head_of_dropWhile ds⟩
  | word hw => obtain hk | hk := kind_of_mem_words hw <;> cases hk
  | single hc => simp [singles] at hc

/-- A token other than white space does not start with white space. -/
lemma head_of_ne_blank (h : scan? cs = some (k, l)) (hk : k ≠ .blank) :
    ∃ c tail, l.text = c :: tail ∧ isBlank c = false := by
  have hcut := scan?_cut h
  have hblank : run isBlank cs = none :=
    scan?_early 1 h (by simpa [rules] using hk) (.blank, run isBlank) (by simp [rules])
  obtain ⟨c, tail, htext⟩ := List.exists_cons_of_ne_nil hcut.text_ne
  refine ⟨c, tail, htext, ?_⟩
  rw [← hcut.parts, htext, List.cons_append, run] at hblank
  simpa using hblank

/-- Behind a call opener no closing parenthesis comes next. -/
lemma head_of_call (h : scan? cs = some (.call, l)) :
    ∀ c ∈ (l.rest.dropWhile isBlank).head?, c ≠ ')' := by
  have hempty : emptyCall cs = none :=
    scan?_early 6 h (by decide) (.emptyCall, emptyCall) (by simp [rules])
  cases scanned_of_scan? h with
  | call hl =>
    rintro c hc rfl
    obtain ⟨tail, htail⟩ := List.head?_eq_some_iff.1 hc
    simp [emptyCall, hl, spaced, htail] at hempty
  | word hw => obtain hk | hk := kind_of_mem_words hw <;> cases hk
  | single hc => simp [singles] at hc

/-- A token other than white space does not end in white space. -/
lemma last_of_ne_blank (h : scan? cs = some (k, l)) (hk : k ≠ .blank) (hk' : k ≠ .operator)
    {trail : List Char} (htrail : Trails k trail) :
    ∃ before c, l.text ++ trail = before ++ [c] ∧ isBlank c = false := by
  have hne := (scan?_cut h).text_ne
  cases scanned_of_scan? h with
  | blank => exact absurd rfl hk
  | string hl =>
    cases htrail
    obtain ⟨quote, ds, r, hquote, hr, rfl⟩ := exists_of_stringLiteral hl
    obtain ⟨before, hbefore⟩ := last_of_stringTail? hr
    refine ⟨quote :: before, quote, by simp [hbefore], ?_⟩
    obtain rfl | rfl := hquote <;> decide
  | word hw hl =>
    rw [trails_of_mem_words hw htrail, List.append_nil]
    refine last_of_forall hne ?_
    rw [eq_of_word hl]
    exact fun c hc => isBlank_of_isNamePart (isNamePart_of_mem_words hw c hc)
  | number hl =>
    cases htrail
    rw [List.append_nil]
    exact last_of_forall hne (notBlank_of_numeral hl)
  | emptyCall =>
    obtain ⟨bs, bs', _, _, rfl⟩ := htrail
    exact ⟨l.text ++ (bs ++ '(' :: bs'), ')', by simp, by decide⟩
  | call =>
    obtain ⟨bs, _, rfl⟩ := htrail
    exact ⟨l.text ++ bs, '(', by simp, by decide⟩
  | path hl =>
    cases htrail
    rw [List.append_nil]
    exact last_of_forall hne (notBlank_of_path hl)
  | operator => exact absurd rfl hk'
  | assignment hl =>
    cases htrail
    obtain ⟨_, rfl, rfl⟩ := exists_of_single hl
    exact ⟨[], '=', rfl, by decide⟩
  | single hc hl =>
    obtain ⟨c, tail, htext, hblank⟩ := head_of_ne_blank h hk
    obtain ⟨_, rfl, rfl⟩ := exists_of_single hl
    rw [(trails_iff_of_mem_singles hc).1 htrail]
    cases htext
    exact ⟨[], _, rfl, hblank⟩

/-- The tokens that consist of one character. -/
def marks : List (TokenKind × Char) :=
  (.assignment, '=') :: singles

lemma text_of_mark (h : scan? cs = some (k, l)) {c : Char} (hc : (k, c) ∈ marks) :
    l.text = [c] := by
  have hunique : ∀ p ∈ marks, ∀ q ∈ marks, p.1 = q.1 → p = q := by decide
  cases scanned_of_scan? h with
  | assignment hl =>
    cases hunique (.assignment, '=') List.mem_cons_self _ hc rfl
    obtain ⟨_, _, rfl⟩ := exists_of_single hl
    rfl
  | @single _ c' hc' hl =>
    cases hunique _ (List.mem_cons_of_mem _ hc') _ hc rfl
    obtain ⟨_, _, rfl⟩ := exists_of_single hl
    rfl
  | word hw => obtain rfl | rfl := kind_of_mem_words hw <;> simp [marks, singles] at hc
  | _ => simp [marks, singles] at hc

lemma kind_of_single (h : scan? cs = some (k, l))
    {c : Char} (hc : c ∈ l.text.head?) {k' : TokenKind} (hk : (k', c) ∈ singles) : k = k' := by
  obtain ⟨tail, htext⟩ := List.head?_eq_some_iff.1 hc
  have hscan := h
  rw [← (scan?_cut h).parts, htext, List.cons_append, scan?_single hk] at hscan
  exact (Prod.mk.inj (Option.some.inj hscan)).1.symm

lemma kind_of_equals (h : scan? cs = some (k, l))
    (hc : '=' ∈ l.text.head?) : k = .operator ∨ k = .assignment := by
  obtain ⟨tail, htext⟩ := List.head?_eq_some_iff.1 hc
  have hscan := h
  rw [← (scan?_cut h).parts, htext, List.cons_append] at hscan
  generalize tail ++ (l.trail ++ l.rest) = rest at hscan
  by_cases hrest : rest.head? = some '='
  · obtain ⟨more, rfl⟩ := List.head?_eq_some_iff.1 hrest
    have hequals : scan? ('=' :: '=' :: more) = some (.operator, ⟨['=', '='], [], more⟩) := rfl
    rw [hequals] at hscan
    exact .inl (Prod.mk.inj (Option.some.inj hscan)).1.symm
  · rw [scan?_assignment fun d hd hd' => hrest (hd' ▸ hd)] at hscan
    exact .inr (Prod.mk.inj (Option.some.inj hscan)).1.symm

end Known

end Token

end Stencil
