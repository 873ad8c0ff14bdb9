import Stencil.Json.Reader
import Stencil.Proofs.Script.Occurrence
import Mathlib.Tactic.IntervalCases

/-!
Texts in the script that say themselves where they end. A word ends where no part of a name comes
next (`run_append_inj`), and a string literal with its closing quote: the reader of JSON reads it
back, whatever comes behind it (`Json.chars_quoted`). A dotted name starts with a word, or with an
entry of the private table, and ends where neither a part of a name nor a dot comes next
(`Script.dotted_append_inj`).
-/

namespace Stencil

open Token (isNamePart)

/-! ### String literals -/

namespace Json

/-- Control characters are read back from their numbers. -/
lemma codePoint?_hex4 {n : Nat} (h : n < 32) (rest : List Char) :
    codePoint? (Text.hex4 n ++ rest) = some (Char.ofNat n, rest) := by
  interval_cases n <;> rfl

lemma chars_jsonChar (c : Char) (fuel : Nat) (rest : List Char) :
    chars (fuel + 1) (Text.jsonChar c ++ rest) =
      (chars fuel rest).bind fun r => some (c :: r.1, r.2) := by
  rw [Text.jsonChar]
  split
  next hc => subst hc; rfl
  split
  next hc => subst hc; rfl
  split
  next hc => subst hc; rfl
  split
  next hc => subst hc; rfl
  split
  next hc => subst hc; rfl
  split
  next hc => subst hc; rfl
  split
  next hc => subst hc; rfl
  split
  next hc =>
    have hread := codePoint?_hex4 hc rest
    rw [Char.ofNat_toNat] at hread
    show (codePoint? (Text.hex4 c.toNat ++ rest) >>= _) = _
    rw [hread]
    rfl
  next hquote hslash _ _ _ _ _ hlow =>
    rw [List.singleton_append, chars, if_neg hquote, if_neg hlow, if_neg hslash]
    rfl

/-- What stands between the quotes of a string literal is read back. -/
lemma chars_quoted (fuel : Nat) (cs rest : List Char) (h : cs.length < fuel) :
    chars fuel (cs.flatMap Text.jsonChar ++ '"' :: rest) = some (cs, rest) := by
  induction cs generalizing fuel with
  | nil =>
    obtain ⟨fuel, rfl⟩ : ∃ k, fuel = k + 1 := ⟨fuel - 1, by omega⟩
    rfl
  | cons c cs ih =>
    rw [List.length_cons] at h
    obtain ⟨fuel, rfl⟩ : ∃ k, fuel = k + 1 := ⟨fuel - 1, by omega⟩
    rw [List.flatMap_cons, List.append_assoc, chars_jsonChar, ih fuel (Nat.lt_of_succ_lt_succ h)]
    rfl

end Json

/-- A string literal determines the text that it stands for, and where it ends. -/
lemma Text.jsonQuote_append_inj {s s' : String} {rest rest' : List Char}
    (h : (jsonQuote s).toList ++ rest = (jsonQuote s').toList ++ rest') :
    s = s' ∧ rest = rest' := by
  simp only [jsonQuote, String.toList_ofList, List.cons_append, List.append_assoc,
    List.cons_inj_right, List.nil_append] at h
  let fuel := max s.toList.length s'.toList.length + 1
  have hread := Json.chars_quoted fuel s.toList rest (by omega)
  have hread' := Json.chars_quoted fuel s'.toList rest' (by omega)
  rw [h, hread'] at hread
  obtain ⟨hs, hrest⟩ := Prod.mk.inj (Option.some.inj hread)
  exact ⟨String.toList_inj.1 hs.symm, hrest.symm⟩

namespace Script

/-! ### Words -/

/-- A run of characters in a class ends where a character outside of it comes next. -/
lemma run_append_inj {p : Char → Bool} {w w' rest rest' : List Char} (hw : ∀ c ∈ w, p c = true)
    (hw' : ∀ c ∈ w', p c = true) (hrest : ∀ c ∈ rest.head?, p c = false)
    (hrest' : ∀ c ∈ rest'.head?, p c = false) (h : w ++ rest = w' ++ rest') :
    w = w' ∧ rest = rest' := by
  have htake := congrArg (List.takeWhile p) h
  rw [List.takeWhile_append_of_pos hw, List.takeWhile_append_of_pos hw',
    (Token.takeWhile_dropWhile_of_head hrest).1, (Token.takeWhile_dropWhile_of_head hrest').1,
    List.append_nil, List.append_nil] at htake
  subst htake
  exact ⟨rfl, List.append_cancel_left h⟩

/-- Neither a name nor names joined by dots go on with the text. -/
def Ends (rest : List Char) : Prop :=
  ∀ c ∈ rest.head?, isNamePart c = false ∧ c ≠ '.'

lemma Ends.not_isNamePart {rest : List Char} (h : Ends rest) :
    ∀ c ∈ rest.head?, isNamePart c = false :=
  fun c hc => (h c hc).1

/-- Names, each behind a dot. -/
def dots (names : List String) : List Char :=
  names.flatMap fun name => '.' :: name.toList

lemma dots_cons (name : String) (names : List String) :
    dots (name :: names) = '.' :: (name.toList ++ dots names) := rfl

/-- No name goes on with names behind dots. -/
lemma not_isNamePart_dots (names : List String) {rest : List Char}
    (hrest : ∀ c ∈ rest.head?, isNamePart c = false) :
    ∀ c ∈ (dots names ++ rest).head?, isNamePart c = false := by
  cases names with
  | nil => exact hrest
  | cons name names =>
    rintro c hc
    obtain rfl := Option.some.inj hc
    decide

lemma dots_append_inj {names names' : List String} (hnames : ∀ name ∈ names, IsIdentifier name)
    (hnames' : ∀ name ∈ names', IsIdentifier name) {rest rest' : List Char} (hrest : Ends rest)
    (hrest' : Ends rest') (h : dots names ++ rest = dots names' ++ rest') :
    names = names' ∧ rest = rest' := by
  have mixed {name : String} {names : List String} {rest rest' : List Char} (hrest : Ends rest) :
      rest ≠ dots (name :: names) ++ rest' := by
    rintro rfl
    exact (hrest '.' rfl).2 rfl
  induction names generalizing names' with
  | nil =>
    cases names' with
    | nil => exact ⟨rfl, h⟩
    | cons name' names' => exact absurd h (mixed hrest)
  | cons name names ih =>
    cases names' with
    | nil => exact absurd h.symm (mixed hrest')
    | cons name' names' =>
      rw [List.forall_mem_cons] at hnames hnames'
      rw [dots_cons, dots_cons, List.cons_append, List.cons_append, List.cons_inj_right,
        List.append_assoc, List.append_assoc] at h
      obtain ⟨hname, hmore⟩ := run_append_inj hnames.1.forall_isNamePart hnames'.1.forall_isNamePart
        (not_isNamePart_dots _ hrest.not_isNamePart) (not_isNamePart_dots _ hrest'.not_isNamePart) h
      obtain ⟨rfl, hrests⟩ := ih hnames.2 hnames'.2 hmore
      exact ⟨by rw [String.toList_inj.1 hname], hrests⟩

/-! ### Dotted names -/

/-- Words of the script that no local name is. -/
def keywords : List String :=
  ["_ctx", "_symbols", "_utils", "null", "true", "false"]

lemma localName_notMem_keywords (name : String) : localName name ∉ keywords := by
  intro h
  have hkeywords : ∀ w ∈ keywords, localName (strip w) ≠ w := by decide
  exact hkeywords _ h (by rw [strip_localName])

/-- The word that a placed name starts with in the script. -/
def word : Expr → String
  | .param name => localName name
  | .context _ => "_ctx"
  | .symbol _ => "_symbols"
  | _ => ""

/-- What belongs to a placed name behind its first word. -/
def tail : Expr → List Char
  | .context name => '.' :: name.toList
  | .symbol key => '[' :: ((Text.jsonQuote (key.file ++ "#" ++ key.name)).toList ++ [']'])
  | _ => []

section Placed

variable {e e' : Expr} {rest rest' : List Char}

lemma toList_expr_of_isPlaced (h : e.IsPlaced) : (expr e).toList = (word e).toList ++ tail e := by
  cases h with
  | param _ => exact (List.append_nil _).symm
  | context _ => rw [expr, word, tail, String.toList_append]; rfl
  | symbol _ => simp [expr, word, tail, symbol]

lemma isIdentifier_word (h : e.IsPlaced) : IsIdentifier (word e) := by
  cases h with
  | param hname => exact isIdentifier_localName hname
  | context _ =>
    have hword : "_ctx".toList = '_' :: "ctx".toList ∧ "ctx".toList.all isNamePart := by decide
    exact ⟨'_', "ctx".toList, hword.1, by decide, List.all_eq_true.1 hword.2⟩
  | symbol _ =>
    have hword : "_symbols".toList = '_' :: "symbols".toList ∧
        "symbols".toList.all isNamePart := by decide
    exact ⟨'_', "symbols".toList, hword.1, by decide, List.all_eq_true.1 hword.2⟩

/-- The first word ends where the rest of the name starts. -/
lemma not_isNamePart_tail (h : e.IsPlaced) (hrest : ∀ c ∈ rest.head?, isNamePart c = false) :
    ∀ c ∈ (tail e ++ rest).head?, isNamePart c = false := by
  cases h with
  | param _ => exact hrest
  | context _ | symbol _ =>
    rintro c hc
    obtain rfl := Option.some.inj hc
    decide

/-- The file and the name of an entry of the private table are told apart. -/
lemma key_inj {key key' : Symbol} (h : IsIdentifier key.name) (h' : IsIdentifier key'.name)
    (heq : key.file ++ "#" ++ key.name = key'.file ++ "#" ++ key'.name) : key = key' := by
  have hmark {name : String} (hname : IsIdentifier name) : '#' ∉ name.toList :=
    fun hmem => absurd (hname.forall_isNamePart _ hmem) (by decide)
  have hfields (key : Symbol) (hname : IsIdentifier key.name) :
      Text.fields '#' (key.file ++ "#" ++ key.name).toList =
        Text.fields '#' key.file.toList ++ [key.name.toList] := by
    rw [String.toList_append, String.toList_append, List.append_assoc]
    exact Text.fields_append _ (hmark hname)
  have hcut := hfields key' h'
  rw [← heq, hfields key h] at hcut
  obtain ⟨hfile, hname⟩ := List.append_inj' hcut rfl
  have hjoined := congrArg (Text.joinFields '#') hfile
  rw [Text.joinFields_fields, Text.joinFields_fields] at hjoined
  cases key
  cases key'
  exact congrArg₂ Symbol.mk (String.toList_inj.1 hjoined)
    (String.toList_inj.1 (List.singleton_inj.1 hname))

/-- A placed name ends where no part of a name comes next. -/
lemma placed_append_inj (h : e.IsPlaced) (h' : e'.IsPlaced)
    (hrest : ∀ c ∈ rest.head?, isNamePart c = false)
    (hrest' : ∀ c ∈ rest'.head?, isNamePart c = false)
    (heq : (expr e).toList ++ rest = (expr e').toList ++ rest') : e = e' ∧ rest = rest' := by
  rw [toList_expr_of_isPlaced h, toList_expr_of_isPlaced h', List.append_assoc,
    List.append_assoc] at heq
  obtain ⟨hword, htail⟩ := run_append_inj (isIdentifier_word h).forall_isNamePart
    (isIdentifier_word h').forall_isNamePart (not_isNamePart_tail h hrest)
    (not_isNamePart_tail h' hrest') heq
  rw [String.toList_inj] at hword
  have hlocal (name : String) : localName name ≠ "_ctx" ∧ localName name ≠ "_symbols" :=
    ⟨fun heq => localName_notMem_keywords name (heq ▸ by decide),
      fun heq => localName_notMem_keywords name (heq ▸ by decide)⟩
  cases h with
  | @param name hname =>
    cases h' with
    | param _ => exact ⟨by rw [localName_injective hword], htail⟩
    | context _ => exact absurd hword (hlocal name).1
    | symbol _ => exact absurd hword (hlocal name).2
  | context hname =>
    cases h' with
    | @param name' _ => exact absurd hword.symm (hlocal name').1
    | context hname' =>
      rw [tail, tail, List.cons_append, List.cons_append, List.cons_inj_right] at htail
      obtain ⟨hnames, hrests⟩ := run_append_inj hname.forall_isNamePart hname'.forall_isNamePart
        hrest hrest' htail
      exact ⟨by rw [String.toList_inj.1 hnames], hrests⟩
    | symbol _ => exact absurd hword (show "_ctx" ≠ "_symbols" by decide)
  | symbol hkey =>
    cases h' with
    | @param name' _ => exact absurd hword.symm (hlocal name').2
    | context _ => exact absurd hword (show "_symbols" ≠ "_ctx" by decide)
    | symbol hkey' =>
      rw [tail, tail, List.cons_append, List.cons_append, List.cons_inj_right, List.append_assoc,
        List.append_assoc] at htail
      obtain ⟨hkeys, hrests⟩ := Text.jsonQuote_append_inj htail
      exact ⟨by rw [key_inj hkey hkey' hkeys], (List.cons.inj hrests).2⟩

end Placed

/-- A dotted name is a placed name with members. -/
lemma exists_of_dotted {e : Expr} (h : e.Dotted Expr.IsPlaced) :
    ∃ root names, root.IsPlaced ∧ (∀ name ∈ names, IsIdentifier name) ∧
      e = names.foldl .member root ∧ (expr e).toList = (expr root).toList ++ dots names := by
  induction h with
  | @root e he => exact ⟨e, [], he, by simp, rfl, by simp [dots]⟩
  | @member e name _ hname ih =>
    obtain ⟨root, names, hroot, hnames, rfl, htext⟩ := ih
    refine ⟨root, names ++ [name], hroot,
      List.forall_mem_append.2 ⟨hnames, List.forall_mem_singleton.2 hname⟩, ?_, ?_⟩
    · rw [List.foldl_append]
      rfl
    · rw [expr, String.toList_append, String.toList_append, htext]
      simp [dots]

/-- **A dotted name** ends where neither a part of a name nor a dot comes next. -/
lemma dotted_append_inj {e e' : Expr} (h : e.Dotted Expr.IsPlaced) (h' : e'.Dotted Expr.IsPlaced)
    {rest rest' : List Char} (hrest : Ends rest) (hrest' : Ends rest')
    (heq : (expr e).toList ++ rest = (expr e').toList ++ rest') : e = e' ∧ rest = rest' := by
  obtain ⟨root, names, hroot, hnames, rfl, htext⟩ := exists_of_dotted h
  obtain ⟨root', names', hroot', hnames', rfl, htext'⟩ := exists_of_dotted h'
  rw [htext, htext', List.append_assoc, List.append_assoc] at heq
  obtain ⟨rfl, hmore⟩ := placed_append_inj hroot hroot'
    (not_isNamePart_dots names hrest.not_isNamePart)
    (not_isNamePart_dots names' hrest'.not_isNamePart) heq
  obtain ⟨rfl, hrests⟩ := dots_append_inj hnames hnames' hrest hrest' hmore
  exact ⟨rfl, hrests⟩

end Script

end Stencil
