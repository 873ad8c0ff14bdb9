import Stencil.SyntaxError
import Stencil.Text.Property

/-!
Cutting a text into tokens. `Token.rules` lists the kinds of tokens in the order in which they are
tried; the first rule that matches at the front of the text gives the token, and nothing is
skipped: `Token.scan?_cut` says that the pieces of a lexeme, put together, are the text it was cut
from. `Token.tokenize` cuts until the text is used up or no rule matches.
-/

namespace Stencil.Token

open Text

/-- What a rule takes from the front of a text. -/
structure Lexeme where
  /-- The text of the token. -/
  text : List Char
  /-- What else belongs to the token: the parenthesis of a call opener, and blanks before it. -/
  trail : List Char
  /-- The text behind the token. -/
  rest : List Char

/-- A way of taking a token from the front of a text. -/
abbrev Rule := List Char → Option Lexeme

/-! ### The parts of tokens -/

/-- The longest run of characters in a class. -/
def run (p : Char → Bool) : Rule
  | [] => none
  | c :: cs => if p c then some ⟨c :: cs.takeWhile p, [], cs.dropWhile p⟩ else none

/-- A string literal behind its opening quote, up to its closing one. A backslash protects the
next character, unless that is the end of a line. -/
def stringTail? (quote : Char) : List Char → Option (List Char × List Char)
  | [] => none
  | '\\' :: c :: cs =>
    if c = '\n' then none
    else (stringTail? quote cs).map fun r => ('\\' :: c :: r.1, r.2)
  | c :: cs =>
    if c = quote then some ([c], cs)
    else if c = '\\' then none
    else (stringTail? quote cs).map fun r => (c :: r.1, r.2)

/-- A string literal in either kind of quotes. -/
def stringLiteral : Rule
  | [] => none
  | c :: cs =>
    if c = '"' || c = '\'' then
      (stringTail? c cs).map fun r => ⟨c :: r.1, [], r.2⟩
    else none

/-- The given word, if no word character follows it. -/
def word (w : String) : Rule := fun cs =>
  if w.toList.isPrefixOf cs && !((cs.drop w.toList.length).head?.any isWord) then
    some ⟨w.toList, [], cs.drop w.toList.length⟩
  else none

/-- Whichever of two rules matches first. -/
def either (r s : Rule) : Rule := fun cs =>
  (r cs).or (s cs)

/-- A point and digits, if both are there. -/
def fraction (cs : List Char) : List Char × List Char :=
  match cs with
  | '.' :: rest =>
    if (rest.takeWhile isDigit).isEmpty then ([], cs)
    else ('.' :: rest.takeWhile isDigit, rest.dropWhile isDigit)
  | _ => ([], cs)

/-- Digits with an optional fraction. -/
def unsigned : Rule := fun cs =>
  (run isDigit cs).map fun l =>
    let r := fraction l.rest
    ⟨l.text ++ r.1, [], r.2⟩

/-- Digits with an optional sign and an optional fraction. -/
def numeral : Rule
  | [] => none
  | c :: cs =>
    if c = '+' || c = '-' then
      (unsigned cs).map fun l => ⟨c :: l.text, [], l.rest⟩
    else unsigned (c :: cs)

/-- What an identifier starts with. -/
def isNameStart (c : Char) : Bool :=
  c.isAlpha || c == '_' || c == '$'

/-- What an identifier goes on with. -/
def isNamePart (c : Char) : Bool :=
  isWord c || c == '$'

/-- The rest of identifiers joined by dots, behind the first character. -/
def pathTail : List Char → List Char × List Char
  | [] => ([], [])
  | [c] => if isNamePart c then ([c], []) else ([], [c])
  | c :: d :: cs =>
    if isNamePart c then
      let r := pathTail (d :: cs)
      (c :: r.1, r.2)
    else if c = '.' && isNameStart d then
      let r := pathTail cs
      ('.' :: d :: r.1, r.2)
    else ([], c :: d :: cs)

/-- Identifiers joined by dots. -/
def path : Rule
  | [] => none
  | c :: cs =>
    if isNameStart c then
      let r := pathTail cs
      some ⟨c :: r.1, [], r.2⟩
    else none

/-- Blanks and then the given character. -/
def spaced (c : Char) (cs : List Char) : Option (List Char × List Char) :=
  match cs.dropWhile isBlank with
  | [] => none
  | d :: rest => if d = c then some (cs.takeWhile isBlank ++ [d], rest) else none

/-- A name and an opening parenthesis. -/
def callOpener : Rule := fun cs =>
  (path cs).bind fun l => (spaced '(' l.rest).map fun r => ⟨l.text, r.1, r.2⟩

/-- A name and a pair of parentheses with nothing but blanks inside. -/
def emptyCall : Rule := fun cs =>
  (callOpener cs).bind fun l => (spaced ')' l.rest).map fun r => ⟨l.text, l.trail ++ r.1, r.2⟩

/-- Operators of two characters. -/
def longOperators : List (Char × Char) :=
  [('=', '='), ('!', '='), ('<', '='), ('>', '='), ('&', '&'), ('|', '|')]

/-- Operators of one character. -/
def shortOperators : List Char :=
  ['+', '-', '*', '/', '%', '<', '>', '!', '~', '?']

/-- An operator, the longer ones first. -/
def operator : Rule
  | [] => none
  | [c] => if shortOperators.contains c then some ⟨[c], [], []⟩ else none
  | c :: d :: cs =>
    if longOperators.contains (c, d) then some ⟨[c, d], [], cs⟩
    else if shortOperators.contains c then some ⟨[c], [], d :: cs⟩
    else none

/-- A single given character. -/
def single (c : Char) : Rule
  | [] => none
  | d :: cs => if d = c then some ⟨[d], [], cs⟩ else none

/-! ### The rules -/

/-- The kinds of tokens with their rules, in the order in which they are tried. -/
def rules : List (TokenKind × Rule) := [
  (.blank, run isBlank),
  (.string, stringLiteral),
  (.bool, either (word "true") (word "false")),
  (.nothing, either (word "none") (word "null")),
  (.number, numeral),
  (.emptyCall, emptyCall),
  (.call, callOpener),
  (.path, path),
  (.operator, operator),
  (.assignment, single '='),
  (.parenOpen, single '('),
  (.parenClose, single ')'),
  (.bracketOpen, single '['),
  (.bracketClose, single ']'),
  (.curlyOpen, single '\x7b'),
  (.curlyClose, single '\x7d'),
  (.comma, single ','),
  (.colon, single ':')]

/-- The first of the rules that matches, and what it takes. -/
def firstMatch? (rs : List (TokenKind × Rule)) (cs : List Char) : Option (TokenKind × Lexeme) :=
  match rs with
  | [] => none
  | (k, r) :: rest =>
    match r cs with
    | some l => some (k, l)
    | none => firstMatch? rest cs

/-- The token at the front of the text. -/
def scan? (cs : List Char) : Option (TokenKind × Lexeme) :=
  firstMatch? rules cs

/-! ### Nothing is lost -/

/-- The lexeme is cut from the front of the text, and its token has a text. -/
structure Lexeme.CutFrom (l : Lexeme) (cs : List Char) : Prop where
  parts : l.text ++ (l.trail ++ l.rest) = cs
  text_ne : l.text ≠ []

/-- The rule only ever takes from the front, and never nothing. -/
def Rule.Cuts (r : Rule) : Prop :=
  ∀ cs l, r cs = some l → l.CutFrom cs

/-- A run of characters is cut from the front. -/
theorem cuts_run (p : Char → Bool) : Rule.Cuts (run p) := by
  intro cs l h
  cases cs with
  | nil => cases h
  | cons c cs =>
    rw [run] at h
    split at h
    · cases h; exact ⟨by simp [List.takeWhile_append_dropWhile], by simp⟩
    · cases h

/-- A string literal and what follows it make up the text. -/
theorem stringTail?_append {quote : Char} {cs : List Char} {r : List Char × List Char}
    (h : stringTail? quote cs = some r) : r.1 ++ r.2 = cs := by
  fun_induction stringTail? quote cs generalizing r with
  | case1 => cases h
  | case2 => cases h
  | case3 c cs _ ih =>
    obtain ⟨r', hr', rfl⟩ := Option.map_eq_some_iff.1 h
    simp [ih hr']
  | case4 c cs => cases h; rfl
  | case5 => cases h
  | case6 c cs _ _ _ ih =>
    obtain ⟨r', hr', rfl⟩ := Option.map_eq_some_iff.1 h
    simp [ih hr']

/-- A string literal is cut from the front. -/
theorem cuts_stringLiteral : Rule.Cuts stringLiteral := by
  intro cs l h
  cases cs with
  | nil => cases h
  | cons c cs =>
    rw [stringLiteral] at h
    split at h
    · obtain ⟨r, hr, rfl⟩ := Option.map_eq_some_iff.1 h
      exact ⟨by simp [stringTail?_append hr], by simp⟩
    · cases h

/-- A word is cut from the front. -/
theorem cuts_word {w : String} (hw : w.toList ≠ []) : Rule.Cuts (word w) := by
  intro cs l h
  rw [word] at h
  split at h
  next hp =>
    cases h
    obtain ⟨t, rfl⟩ := List.isPrefixOf_iff_prefix.1 (Bool.and_eq_true_iff.1 hp).1
    exact ⟨by simp, hw⟩
  · cases h

/-- If two rules only take from the front, so does their choice. -/
theorem cuts_either {r s : Rule} (hr : r.Cuts) (hs : s.Cuts) : Rule.Cuts (either r s) := by
  intro cs l h
  rcases Option.or_eq_some_iff.1 h with h | ⟨_, h⟩
  · exact hr cs l h
  · exact hs cs l h

/-- A fraction and what follows it make up the text. -/
theorem fraction_append (cs : List Char) : (fraction cs).1 ++ (fraction cs).2 = cs := by
  unfold fraction
  split
  · split
    · rfl
    · simp [List.takeWhile_append_dropWhile]
  · rfl

/-- Digits with a fraction are cut from the front. -/
theorem cuts_unsigned : Rule.Cuts unsigned := by
  intro cs l h
  obtain ⟨l', hl', rfl⟩ := Option.map_eq_some_iff.1 h
  have hcut := cuts_run isDigit cs l' hl'
  have htrail : l'.trail = [] := by
    cases cs with
    | nil => cases hl'
    | cons c cs =>
      rw [run] at hl'
      split at hl'
      · cases hl'; rfl
      · cases hl'
  have := hcut.parts
  rw [htrail] at this
  exact ⟨by simpa [List.append_assoc, fraction_append] using this, by simp [hcut.text_ne]⟩

/-- A signed number is cut from the front. -/
theorem cuts_numeral : Rule.Cuts numeral := by
  intro cs l h
  cases cs with
  | nil => cases h
  | cons c cs =>
    rw [numeral] at h
    split at h
    · obtain ⟨l', hl', rfl⟩ := Option.map_eq_some_iff.1 h
      have hl : l'.trail = [] := by
        obtain ⟨l'', _, rfl⟩ := Option.map_eq_some_iff.1 hl'; rfl
      have := (cuts_unsigned cs l' hl').parts
      rw [hl] at this
      exact ⟨by simpa using this, by simp⟩
    · exact cuts_unsigned _ l h

/-- The rest of a name and what follows it make up the text. -/
theorem pathTail_append (cs : List Char) : (pathTail cs).1 ++ (pathTail cs).2 = cs := by
  fun_induction pathTail cs with
  | case1 => rfl
  | case2 => rfl
  | case3 => rfl
  | case4 c d cs _ r ih => simpa [r] using ih
  | case5 c d cs _ h r ih =>
    have hc : c = '.' := by simpa using (Bool.and_eq_true_iff.1 h).1
    simpa [hc, r] using ih
  | case6 => rfl

/-- A name is cut from the front. -/
theorem cuts_path : Rule.Cuts path := by
  intro cs l h
  cases cs with
  | nil => cases h
  | cons c cs =>
    rw [path] at h
    split at h
    · cases h; exact ⟨by simp [pathTail_append], by simp⟩
    · cases h

/-- A name is the whole of its token. -/
theorem path_trail {cs : List Char} {l : Lexeme} (h : path cs = some l) : l.trail = [] := by
  cases cs with
  | nil => cases h
  | cons c cs =>
    rw [path] at h
    split at h
    · cases h; rfl
    · cases h

/-- Blanks with a character behind them, and what follows, make up the text. -/
theorem spaced_append {c : Char} {cs : List Char} {r : List Char × List Char}
    (h : spaced c cs = some r) : r.1 ++ r.2 = cs := by
  rw [spaced] at h
  split at h
  · cases h
  next d rest hd =>
    split at h
    · cases h
      have := List.takeWhile_append_dropWhile (p := isBlank) (l := cs)
      rw [hd] at this
      simpa using this
    · cases h

/-- A call opener is cut from the front. -/
theorem cuts_callOpener : Rule.Cuts callOpener := by
  intro cs l h
  obtain ⟨l', hl', h⟩ := Option.bind_eq_some_iff.1 h
  obtain ⟨r, hr, rfl⟩ := Option.map_eq_some_iff.1 h
  have hcut := cuts_path cs l' hl'
  have := hcut.parts
  rw [path_trail hl'] at this
  exact ⟨by simpa [spaced_append hr] using this, hcut.text_ne⟩

/-- A call without arguments is cut from the front. -/
theorem cuts_emptyCall : Rule.Cuts emptyCall := by
  intro cs l h
  obtain ⟨l', hl', h⟩ := Option.bind_eq_some_iff.1 h
  obtain ⟨r, hr, rfl⟩ := Option.map_eq_some_iff.1 h
  have hcut := cuts_callOpener cs l' hl'
  exact ⟨by simpa [List.append_assoc, spaced_append hr] using hcut.parts, hcut.text_ne⟩

/-- An operator is cut from the front. -/
theorem cuts_operator : Rule.Cuts operator := by
  intro cs l h
  unfold operator at h
  split at h
  · cases h
  · split at h
    · cases h; exact ⟨rfl, by simp⟩
    · cases h
  · split at h
    · cases h; exact ⟨rfl, by simp⟩
    · split at h
      · cases h; exact ⟨rfl, by simp⟩
      · cases h

/-- A single character is cut from the front. -/
theorem cuts_single (c : Char) : Rule.Cuts (single c) := by
  intro cs l h
  cases cs with
  | nil => cases h
  | cons d cs =>
    rw [single] at h
    split at h
    · cases h; exact ⟨rfl, by simp⟩
    · cases h

/-- Every rule of the language takes from the front, and never nothing. -/
theorem cuts_of_mem_rules {k : TokenKind} {r : Rule} (h : (k, r) ∈ rules) : r.Cuts := by
  simp only [rules, List.mem_cons, Prod.mk.injEq, List.not_mem_nil, or_false] at h
  rcases h with ⟨_, rfl⟩ | ⟨_, rfl⟩ | ⟨_, rfl⟩ | ⟨_, rfl⟩ | ⟨_, rfl⟩ | ⟨_, rfl⟩ | ⟨_, rfl⟩ |
    ⟨_, rfl⟩ | ⟨_, rfl⟩ | ⟨_, rfl⟩ | ⟨_, rfl⟩ | ⟨_, rfl⟩ | ⟨_, rfl⟩ | ⟨_, rfl⟩ | ⟨_, rfl⟩ |
    ⟨_, rfl⟩ | ⟨_, rfl⟩ | ⟨_, rfl⟩
  · exact cuts_run _
  · exact cuts_stringLiteral
  · exact cuts_either (cuts_word (by decide)) (cuts_word (by decide))
  · exact cuts_either (cuts_word (by decide)) (cuts_word (by decide))
  · exact cuts_numeral
  · exact cuts_emptyCall
  · exact cuts_callOpener
  · exact cuts_path
  · exact cuts_operator
  all_goals exact cuts_single _

/-- The first match is a match of one of the rules. -/
theorem firstMatch?_mem {rs : List (TokenKind × Rule)} {cs : List Char} {k : TokenKind}
    {l : Lexeme} (h : firstMatch? rs cs = some (k, l)) : ∃ r, (k, r) ∈ rs ∧ r cs = some l := by
  induction rs with
  | nil => cases h
  | cons p rest ih =>
    obtain ⟨k', r⟩ := p
    rw [firstMatch?] at h
    split at h
    next l' hl' => cases h; exact ⟨r, List.mem_cons_self, hl'⟩
    next =>
      obtain ⟨r', hr', hl'⟩ := ih h
      exact ⟨r', List.mem_cons_of_mem _ hr', hl'⟩

/-- The token at the front of a text is cut from it. -/
theorem scan?_cut {cs : List Char} {k : TokenKind} {l : Lexeme} (h : scan? cs = some (k, l)) :
    l.CutFrom cs := by
  obtain ⟨r, hr, hl⟩ := firstMatch?_mem h
  exact cuts_of_mem_rules hr cs l hl

/-- Behind a token the text is shorter. -/
theorem scan?_length {cs : List Char} {k : TokenKind} {l : Lexeme} (h : scan? cs = some (k, l)) :
    l.rest.length < cs.length := by
  have hcut := scan?_cut h
  have hpos := List.length_pos_iff.2 hcut.text_ne
  rw [← hcut.parts]
  simp only [List.length_append]
  omega

/-! ### Whole texts -/

/-- The error at the front of a text that starts with no token. -/
def scanError (c : Char) (offset line : Nat) : SyntaxError :=
  ⟨if c = '"' || c = '\'' then .unterminatedString else .unexpectedCharacter c, line,
    ⟨offset, offset + c.utf8Size⟩, []⟩

/-- The tokens of a text that starts at byte `offset` on line `line`. -/
def tokenize (cs : List Char) (offset line : Nat) : Except SyntaxError (List Token) :=
  match cs with
  | [] => .ok []
  | c :: cs =>
    match _found : scan? (c :: cs) with
    | none => .error (scanError c offset line)
    | some (k, l) =>
      let whole := l.text ++ l.trail
      match tokenize l.rest (offset + bytes whole) (line + newlines whole) with
      | .ok more =>
        .ok (⟨k, String.ofList l.text, ⟨offset, offset + bytes whole⟩, line⟩ :: more)
      | .error e => .error e
termination_by cs.length
decreasing_by exact scan?_length _found

end Stencil.Token
