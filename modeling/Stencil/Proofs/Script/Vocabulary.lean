import Stencil.Proofs.Script.Identifier
import Stencil.Proofs.Lexing.Chunk
import Stencil.Proofs.References

/-!
Names in expressions. The lexer takes nothing but identifiers, with dots between them, for the text
of a name or of what is called (`Token.regular_of_tokenize`), and in what has been read only such
names are called or have members. Expressions of this shape are **regular** (`Expr.Regular`); what
their dotted names start from, and which numbers are in them, is left open, so that compiling and
linking, which replace the former, keep expressions regular (`Expr.Regular.replace`).
-/

namespace Stencil

open Text (fields)

/-! ### Tokens -/

namespace Token

/-- What the token names is named by identifiers. -/
def Regular (t : Token) : Prop :=
  t.kind ∈ [.path, .call, .emptyCall] →
    ∀ name ∈ fields '.' t.text.toList, IsIdentifier (String.ofList name)

lemma isIdentifier_ofList {c : Char} {cs : List Char} (hc : isNameStart c = true)
    (hcs : ∀ d ∈ cs, isNamePart d = true) : IsIdentifier (String.ofList (c :: cs)) :=
  ⟨c, cs, String.toList_ofList, hc, hcs⟩

/-- The dots behind the start of a name stand between identifiers. -/
lemma fields_pathTail (cs : List Char) : ∃ part names, fields '.' (pathTail cs).1 = part :: names ∧
    (∀ c ∈ part, isNamePart c = true) ∧ ∀ name ∈ names, IsIdentifier (String.ofList name) := by
  have ne_dot {c : Char} (h : isNamePart c = true) : c ≠ '.' := by
    rintro rfl
    exact absurd h (by decide)
  fun_induction pathTail cs with
  | case1 => exact ⟨[], [], rfl, by simp, by simp⟩
  | case2 c hc =>
    exact ⟨[c], [], by rw [fields, if_neg (ne_dot hc)]; rfl, by simpa using hc, by simp⟩
  | case3 => exact ⟨[], [], rfl, by simp, by simp⟩
  | case4 c d cs hc r ih =>
    obtain ⟨part, names, hfields, hpart, hnames⟩ := ih
    refine ⟨c :: part, names, ?_, List.forall_mem_cons.2 ⟨hc, hpart⟩, hnames⟩
    rw [fields, if_neg (ne_dot hc), hfields]
  | case5 c d cs _ h r ih =>
    obtain ⟨part, names, hfields, hpart, hnames⟩ := ih
    have hd : isNameStart d = true := (Bool.and_eq_true_iff.1 h).2
    refine ⟨[], (d :: part) :: names, ?_, by simp,
      List.forall_mem_cons.2 ⟨isIdentifier_ofList hd hpart, hnames⟩⟩
    rw [fields, if_pos rfl, fields, if_neg (ne_dot (of_isNameStart hd).1), hfields]
  | case6 => exact ⟨[], [], rfl, by simp, by simp⟩

/-- A name consists of identifiers. -/
lemma isIdentifier_of_path {cs : List Char} {l : Lexeme} (h : path cs = some l) :
    ∀ name ∈ fields '.' l.text, IsIdentifier (String.ofList name) := by
  obtain ⟨c, ds, rfl, hc, rfl⟩ := exists_of_path h
  obtain ⟨part, names, hfields, hpart, hnames⟩ := fields_pathTail ds
  have hdot : c ≠ '.' := by
    rintro rfl
    exact absurd hc (by decide)
  rw [fields, if_neg hdot, hfields]
  exact List.forall_mem_cons.2 ⟨isIdentifier_ofList hc hpart, hnames⟩

lemma isIdentifier_of_scan? {cs : List Char} {k : TokenKind} {l : Lexeme}
    (h : scan? cs = some (k, l)) (hk : k ∈ [.path, .call, .emptyCall]) :
    ∀ name ∈ fields '.' l.text, IsIdentifier (String.ofList name) := by
  cases scanned_of_scan? h with
  | path hl => exact isIdentifier_of_path hl
  | call hl =>
    obtain ⟨l₀, _, hl₀, _, htext, _⟩ := exists_of_callOpener hl
    exact htext ▸ isIdentifier_of_path hl₀
  | emptyCall hl =>
    obtain ⟨l₀, _, _, hl₀, _, _, htext, _⟩ := exists_of_emptyCall hl
    exact htext ▸ isIdentifier_of_path hl₀
  | word hw => obtain rfl | rfl := kind_of_mem_words hw <;> simp at hk
  | single hc =>
    simp only [List.mem_cons, List.not_mem_nil, or_false] at hk
    obtain rfl | rfl | rfl := hk <;> simp [singles] at hc
  | _ => simp at hk

/-- All tokens of a text are regular. -/
lemma regular_of_tokenize {cs : List Char} {offset line : Nat} {ts : List Token}
    (h : tokenize cs offset line = .ok ts) : ∀ t ∈ ts, t.Regular := by
  intro t ht hkind
  obtain ⟨ps, hps, hseen⟩ := lexes_of_tokenize h
  obtain ⟨p, hp, hpt⟩ := List.mem_map.1 (hseen ▸ List.mem_map_of_mem ht)
  obtain ⟨⟨cs, l, hscan, htext⟩, _⟩ := hps.apart.proper p hp
  obtain ⟨hpkind, hptext⟩ := Prod.mk.inj hpt
  rw [← hptext, String.toList_ofList, ← htext]
  exact isIdentifier_of_scan? hscan (hpkind ▸ hkind)

end Token

/-! ### Expressions -/

/-- The numbers that a text can stand for. -/
def Number.IsRead (n : Number) : Prop :=
  ∃ cs, ofNumeral? cs = some n

namespace Expr

/-- A root, or members of it that identifiers name. -/
inductive Dotted (root : Expr → Prop) : Expr → Prop
  | root {e : Expr} : root e → Dotted root e
  | member {e : Expr} {name : String} : Dotted root e → IsIdentifier name →
      Dotted root (.member e name)

/-- **Regular expressions**: nothing but dotted names has members or is called. -/
inductive Regular (root : Expr → Prop) (number : Number → Prop) : Expr → Prop
  | literal {l : Literal} : (∀ n, l = .number n → number n) → Regular root number (.literal l)
  | dotted {e : Expr} : Dotted root e → Regular root number e
  | index {target place : Expr} : Regular root number target → Regular root number place →
      Regular root number (.index target place)
  | list {items : List Expr} : (∀ e ∈ items, Regular root number e) →
      Regular root number (.list items)
  | map {entries : List (String × Expr)} : (∀ p ∈ entries, Regular root number p.2) →
      Regular root number (.map entries)
  | call {callee : Expr} {args : List Expr} {kwargs : List (String × Expr)} :
      Dotted root callee → (∀ e ∈ args, Regular root number e) →
      (∀ p ∈ kwargs, Regular root number p.2) → Regular root number (.call callee args kwargs)

/-- A name as it stands in a template. -/
def IsVar (e : Expr) : Prop :=
  ∃ name, IsIdentifier name ∧ e = .var name

/-- The phrase consists of regular expressions. -/
def Phrase.Regular (root : Expr → Prop) (number : Number → Prop) : Phrase → Prop
  | .expr e | .operand e => e.Regular root number
  | .indexes target e => target.Regular root number → e.Regular root number
  | .items es => ∀ e ∈ es, e.Regular root number
  | .entries es | .keywords es => ∀ p ∈ es, p.2.Regular root number
  | .arguments args kwargs | .someArguments args kwargs =>
    (∀ e ∈ args, e.Regular root number) ∧ ∀ p ∈ kwargs, p.2.Regular root number

lemma Named.dotted {text : String} {e : Expr} (h : Named text e)
    (hnames : ∀ name ∈ fields '.' text.toList, IsIdentifier (String.ofList name)) :
    Dotted IsVar e := by
  induction h with
  | @var name hname =>
    rw [Text.fields_of_notMem hname, List.forall_mem_singleton, String.ofList_toList] at hnames
    exact .root ⟨name, hnames, rfl⟩
  | @member names name e _ hname ih =>
    have htext : (names ++ "." ++ name).toList = names.toList ++ '.' :: name.toList := by simp
    rw [htext, Text.fields_append _ hname, List.forall_mem_append, List.forall_mem_singleton,
      String.ofList_toList] at hnames
    exact .member (ih hnames.1) hnames.2

/-- What is written with regular tokens is regular. -/
lemma Derives.regular {us : List Token} {φ : Phrase} (h : Derives us φ)
    (hus : ∀ t ∈ us, t.Regular) : φ.Regular IsVar Number.IsRead := by
  induction h with
  | expr _ _ ih ih' =>
    rw [List.forall_mem_append] at hus
    exact ih' hus.2 (ih hus.1)
  | noIndex => exact id
  | index _ _ _ _ ih ih' =>
    simp only [List.forall_mem_cons, List.forall_mem_append] at hus
    exact fun htarget => ih' hus.2.2.2 (.index htarget (ih hus.2.1))
  | string | bool | nothing => exact .literal (by simp)
  | @number t n _ hn =>
    refine .literal fun n' hn' => ?_
    cases hn'
    exact ⟨t.text.toList, hn⟩
  | path hkind hnamed =>
    rw [List.forall_mem_singleton] at hus
    exact .dotted (hnamed.dotted (hus (by simp [hkind])))
  | emptyCall hkind hnamed =>
    rw [List.forall_mem_singleton] at hus
    exact .call (hnamed.dotted (hus (by simp [hkind]))) (by simp) (by simp)
  | call hkind hnamed _ _ ih =>
    simp only [List.forall_mem_cons, List.forall_mem_append] at hus
    obtain ⟨hargs, hkwargs⟩ := ih hus.2.1
    exact .call (hnamed.dotted (hus.1 (by simp [hkind]))) hargs hkwargs
  | list _ _ _ ih =>
    simp only [List.forall_mem_cons, List.forall_mem_append] at hus
    exact .list (ih hus.2.1)
  | map _ _ _ ih =>
    simp only [List.forall_mem_cons, List.forall_mem_append] at hus
    exact .map (ih hus.2.1)
  | paren _ _ _ ih =>
    simp only [List.forall_mem_cons, List.forall_mem_append] at hus
    exact ih hus.2.1
  | noItem | noEntry => exact List.forall_mem_nil _
  | lastItem _ ih => exact List.forall_mem_singleton.2 (ih hus)
  | item _ _ _ ih ih' =>
    simp only [List.forall_mem_cons, List.forall_mem_append] at hus
    exact List.forall_mem_cons.2 ⟨ih hus.1, ih' hus.2.2⟩
  | lastEntry _ _ _ ih | lastKeyword _ _ _ _ ih =>
    simp only [List.forall_mem_cons] at hus
    exact List.forall_mem_singleton.2 (ih hus.2.2)
  | entry _ _ _ _ _ ih ih' | keyword _ _ _ _ _ _ ih ih' =>
    simp only [List.forall_mem_cons, List.forall_mem_append] at hus
    exact List.forall_mem_cons.2 ⟨ih hus.2.2.1, ih' hus.2.2.2.2⟩
  | noArgument => exact ⟨List.forall_mem_nil _, List.forall_mem_nil _⟩
  | arguments _ ih => exact ih hus
  | lastPositional _ ih => exact ⟨List.forall_mem_singleton.2 (ih hus), List.forall_mem_nil _⟩
  | positional _ _ _ ih ih' =>
    simp only [List.forall_mem_cons, List.forall_mem_append] at hus
    obtain ⟨hargs, hkwargs⟩ := ih' hus.2.2
    exact ⟨List.forall_mem_cons.2 ⟨ih hus.1, hargs⟩, hkwargs⟩
  | keywords _ ih => exact ⟨List.forall_mem_nil _, ih hus⟩

/-- The expression that regular tokens make up is regular. -/
lemma regular_of_ofTokens {ts : List Token} {e : Expr} (hts : ∀ t ∈ ts, t.Regular)
    (h : ofTokens ts = .ok e) : e.Regular IsVar Number.IsRead :=
  (derives_of_ofTokens h).regular fun t ht => hts t (List.mem_of_mem_filter ht)

/-! ### Replaced roots -/

section Replace

variable {root root' : Expr → Prop} {number : Number → Prop} {f : Expr → Option Expr}

lemma replaceItems_eq_map (es : List Expr) : replaceItems f es = es.map (·.replace f) := by
  induction es with
  | nil => rfl
  | cons e rest ih => rw [replaceItems, ih, List.map_cons]

lemma replaceEntries_eq_map (es : List (String × Expr)) :
    replaceEntries f es = es.map fun p => (p.1, p.2.replace f) := by
  induction es with
  | nil => rfl
  | cons p rest ih =>
    obtain ⟨k, e⟩ := p
    rw [replaceEntries, ih, List.map_cons]

lemma Dotted.replace (hf : Relinked f) (hroot : ∀ {e}, root e → Dotted root' (e.replace f))
    {e : Expr} (h : Dotted root e) : Dotted root' (e.replace f) := by
  induction h with
  | root he => exact hroot he
  | @member e name _ hname ih =>
    rw [Expr.replace, hf (e := .member e name) (by rintro ⟨⟩)]
    exact .member ih hname

/-- Expressions stay regular if their roots become dotted names. -/
lemma Regular.replace (hf : Relinked f) (hroot : ∀ {e}, root e → Dotted root' (e.replace f))
    {e : Expr} (h : e.Regular root number) : (e.replace f).Regular root' number := by
  induction h with
  | @literal l hl =>
    rw [Expr.replace, hf (e := .literal l) (by rintro ⟨⟩)]
    exact .literal hl
  | dotted he => exact .dotted (he.replace hf hroot)
  | @index target place _ _ iht ihp =>
    rw [Expr.replace, hf (e := .index target place) (by rintro ⟨⟩)]
    exact .index iht ihp
  | @list items _ ih =>
    rw [Expr.replace, hf (e := .list items) (by rintro ⟨⟩), replaceItems_eq_map]
    exact .list (List.forall_mem_map.2 ih)
  | @map entries _ ih =>
    rw [Expr.replace, hf (e := .map entries) (by rintro ⟨⟩), replaceEntries_eq_map]
    exact .map (List.forall_mem_map.2 ih)
  | @call callee args kwargs hcallee _ _ ihargs ihkwargs =>
    rw [Expr.replace, hf (e := .call callee args kwargs) (by rintro ⟨⟩), replaceItems_eq_map,
      replaceEntries_eq_map]
    exact .call (hcallee.replace hf hroot) (List.forall_mem_map.2 ihargs)
      (List.forall_mem_map.2 ihkwargs)

end Replace

end Expr

end Stencil
