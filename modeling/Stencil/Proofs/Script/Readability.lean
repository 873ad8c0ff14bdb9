import Stencil.Proofs.Script.Spelling

/-!
Unique readability of expressions in the script. An expression is an **operand** with indexes
behind it (`Script.exists_operand`). The start of a text tells which kind of operand it starts with
(`Script.Opening`, `Script.opening_text`), and what may follow an operand or an expression
(`Script.Follows`, `Script.Closes`) neither prolongs it nor starts another one. So each kind of
operand is read off any text that it starts (`Script.ReadsOperand`), as soon as the expressions
inside of it are, and by induction every regular expression is (`Script.readsWith_of_regular`).

Numbers are written as they are in rendered output. What is asked of their texts is
`Script.NumbersApart`, and they are compared by value (`Expr.equals`).
-/

namespace Stencil

/-! ### Equality -/

/-- Equality of constants; numbers are compared by value. -/
def Literal.equals : Literal → Literal → Bool
  | .number m, .number n => m.equals n
  | l, l' => l == l'

namespace Expr

mutual

/-- Equality of expressions, with numbers compared by value. -/
def equals : Expr → Expr → Bool
  | .literal l, .literal l' => l.equals l'
  | .var name, .var name' => name == name'
  | .param name, .param name' => name == name'
  | .context name, .context name' => name == name'
  | .symbol key, .symbol key' => key == key'
  | .member target name, .member target' name' => target.equals target' && name == name'
  | .index target place, .index target' place' => target.equals target' && place.equals place'
  | .list items, .list items' => equalItems items items'
  | .map entries, .map entries' => equalEntries entries entries'
  | .call callee args kwargs, .call callee' args' kwargs' =>
    callee.equals callee' && equalItems args args' && equalEntries kwargs kwargs'
  | _, _ => false

/-- Equality of expressions one by one. -/
def equalItems : List Expr → List Expr → Bool
  | [], [] => true
  | e :: rest, e' :: rest' => e.equals e' && equalItems rest rest'
  | _, _ => false

/-- Equality of expressions one by one, and of what they stand under. -/
def equalEntries : List (String × Expr) → List (String × Expr) → Bool
  | [], [] => true
  | (k, e) :: rest, (k', e') :: rest' => k == k' && e.equals e' && equalEntries rest rest'
  | _, _ => false

end

lemma equalItems_of_forall₂ {es es' : List Expr}
    (h : List.Forall₂ (fun e e' => e.equals e' = true) es es') : equalItems es es' = true := by
  induction h with
  | nil => rfl
  | cons he _ ih => rw [equalItems, he, ih]; rfl

lemma equalEntries_of_forall₂ {es es' : List (String × Expr)}
    (h : List.Forall₂ (fun p p' => p.1 = p'.1 ∧ p.2.equals p'.2 = true) es es') :
    equalEntries es es' = true := by
  induction h with
  | nil => rfl
  | cons he _ ih => rw [equalEntries, he.1, he.2, ih, beq_self_eq_true]; rfl

/-- Dotted names have no numbers in them. -/
lemma Dotted.equals_self {e : Expr} (h : e.Dotted IsPlaced) : e.equals e = true := by
  induction h with
  | root he => cases he <;> exact beq_self_eq_true _
  | member _ _ ih => rw [equals, ih, beq_self_eq_true]; rfl

/-- Indexes one behind the other. -/
lemma equals_foldl_index {e e' : Expr} {places places' : List Expr} (h : e.equals e' = true)
    (hplaces : List.Forall₂ (fun p p' => p.equals p' = true) places places') :
    (places.foldl .index e).equals (places'.foldl .index e') = true := by
  induction hplaces generalizing e e' with
  | nil => exact h
  | cons hp _ ih => exact ih (by rw [equals, h, hp]; rfl)

end Expr

namespace Script

open Token (isNamePart isNameStart)

/-! ### Texts with commas -/

/-- What closes an expression. -/
def closers : List Char :=
  [']', ',', ')', '\x7d', ';']

/-- No expression goes on with the text. -/
def Closes (rest : List Char) : Prop :=
  ∀ c ∈ rest.head?, c ∈ closers

/-- No operand goes on with the text, but an index may come. -/
def Follows (rest : List Char) : Prop :=
  ∀ c ∈ rest.head?, c ∈ '[' :: closers

lemma closes_cons {c : Char} (hc : c ∈ closers) (rest : List Char) : Closes (c :: rest) := by
  rintro d hd
  obtain rfl := Option.some.inj hd
  exact hc

/-- What stands behind the first of several texts. -/
def moreCommas : List String → List Char
  | [] => []
  | s :: ss => ',' :: ' ' :: (commas (s :: ss)).toList

lemma toList_commas_cons (s : String) (ss : List String) :
    (commas (s :: ss)).toList = s.toList ++ moreCommas ss := by
  cases ss with
  | nil => simp [commas, moreCommas]
  | cons t ss =>
    rw [commas, String.intercalate_cons_cons]
    simp [moreCommas, commas]

lemma closes_moreCommas (ss : List String) {close : Char} (hclose : close ∈ closers)
    (rest : List Char) : Closes (moreCommas ss ++ close :: rest) := by
  cases ss with
  | nil => exact closes_cons hclose rest
  | cons s ss => exact closes_cons (by decide) _

section Commas

variable {α : Type} {f : α → String} {R : α → α → Prop} {good : α → Prop}

/-- Texts with commas between them determine where each of them ends, if each of them does so and
none is empty or starts like what closes it. -/
lemma commas_append_inj {xs ys : List α}
    (hhead : ∀ x, good x → ∃ c cs, (f x).toList = c :: cs ∧ c ∉ closers)
    (hinj : ∀ x ∈ xs, ∀ y, good y → ∀ {rest rest'}, Closes rest → Closes rest' →
      (f x).toList ++ rest = (f y).toList ++ rest' → R x y ∧ rest = rest')
    (hxs : ∀ x ∈ xs, good x) (hys : ∀ y ∈ ys, good y) {close : Char} (hclose : close ∈ closers)
    (hne : close ≠ ',') {rest rest' : List Char}
    (h : (commas (xs.map f)).toList ++ close :: rest =
      (commas (ys.map f)).toList ++ close :: rest') : List.Forall₂ R xs ys ∧ rest = rest' := by
  have mixed {x : α} {xs : List α} (hx : good x) {rest rest' : List Char} :
      close :: rest ≠ (commas ((x :: xs).map f)).toList ++ rest' := by
    obtain ⟨c, cs, hf, hc⟩ := hhead x hx
    rw [List.map_cons, toList_commas_cons, hf]
    rintro heq
    exact hc ((List.cons.inj heq).1 ▸ hclose)
  induction xs generalizing ys with
  | nil =>
    cases ys with
    | nil => exact ⟨.nil, (List.cons.inj h).2⟩
    | cons y ys => exact absurd h (mixed (hys y List.mem_cons_self))
  | cons x xs ih =>
    cases ys with
    | nil => exact absurd h.symm (mixed (hxs x List.mem_cons_self))
    | cons y ys =>
      rw [List.forall_mem_cons] at hinj hxs hys
      rw [List.map_cons, List.map_cons, toList_commas_cons, toList_commas_cons, List.append_assoc,
        List.append_assoc] at h
      obtain ⟨hxy, hmore⟩ := hinj.1 y hys.1 (closes_moreCommas _ hclose rest)
        (closes_moreCommas _ hclose rest') h
      cases xs with
      | nil =>
        cases ys with
        | nil => exact ⟨.cons hxy .nil, (List.cons.inj hmore).2⟩
        | cons y' ys => exact absurd (List.cons.inj hmore).1 hne
      | cons x' xs =>
        cases ys with
        | nil => exact absurd (List.cons.inj hmore).1.symm hne
        | cons y' ys =>
          obtain ⟨hrest, hrests⟩ := ih hinj.2 hxs.2 hys.2
            (List.cons.inj (List.cons.inj hmore).2).2
          exact ⟨.cons hxy hrest, hrests⟩

end Commas

/-! ### How operands start -/

/-- The kinds of operands that the start of a text tells apart. -/
inductive Opening where
  | nothing
  | bool
  | number
  | string
  | list
  | map
  | name
  | keywords
  deriving DecidableEq

/-- What starts with the word. -/
def Opening.ofWord (word : String) : Opening :=
  if word = "null" then .nothing
  else if word = "true" ∨ word = "false" then .bool
  else if word = "_utils" then .keywords
  else .name

/-- What starts like the text. -/
def Opening.of (cs : List Char) : Opening :=
  match cs.takeWhile isNamePart with
  | c :: word => if Text.isDigit c then .number else ofWord (String.ofList (c :: word))
  | [] =>
    if cs.head? = some '"' then .string
    else if cs.head? = some '[' then .list
    else if cs.head? = some '\x7b' then .map
    else .number

/-- The kind of an operand. -/
def opening : Expr → Opening
  | .literal .nothing => .nothing
  | .literal (.bool _) => .bool
  | .literal (.number _) => .number
  | .literal (.string _) => .string
  | .list _ => .list
  | .map _ => .map
  | .call _ _ (_ :: _) => .keywords
  | _ => .name

/-- A word tells what starts with it. -/
lemma Opening.of_word {w : String} (hw : w.toList.all isNamePart = true)
    (hhead : w.toList.head?.all (fun c => !Text.isDigit c) = true) (hne : w.toList ≠ [])
    {rest : List Char} (hrest : ∀ c ∈ rest.head?, isNamePart c = false) :
    Opening.of (w.toList ++ rest) = ofWord w := by
  have htake : (w.toList ++ rest).takeWhile isNamePart = w.toList := by
    rw [List.takeWhile_append_of_pos (List.all_eq_true.1 hw),
      (Token.takeWhile_dropWhile_of_head hrest).1, List.append_nil]
  rw [Opening.of, htake]
  obtain ⟨c, cs, hcs⟩ := List.exists_cons_of_ne_nil hne
  rw [hcs] at hhead
  have hc : Text.isDigit c = false := by simpa using hhead
  rw [hcs]
  dsimp only
  rw [if_neg (by simp [hc]), ← hcs, String.ofList_toList]

lemma not_isNamePart_of_closers {c : Char} (hc : c ∈ '[' :: closers) : isNamePart c = false := by
  have hall : ('[' :: closers).all (fun c => !isNamePart c) = true := by decide
  simpa using List.all_eq_true.1 hall c hc

lemma Follows.not_isNamePart {rest : List Char} (h : Follows rest) :
    ∀ c ∈ rest.head?, isNamePart c = false :=
  fun c hc => not_isNamePart_of_closers (h c hc)

lemma Closes.follows {rest : List Char} (h : Closes rest) : Follows rest :=
  fun c hc => List.mem_cons_of_mem _ (h c hc)

lemma Follows.ends {rest : List Char} (h : Follows rest) : Ends rest := by
  have hall : '.' ∉ '[' :: closers := by decide
  exact fun c hc => ⟨h.not_isNamePart c hc, fun hdot => hall (hdot ▸ h c hc)⟩

/-- The first word of a placed name is none of the words that other operands start with. -/
lemma ofWord_word {e : Expr} (h : e.IsPlaced) : Opening.ofWord (word e) = .name := by
  have hne : word e ∉ ["null", "true", "false", "_utils"] := by
    cases h with
    | param _ =>
      have hsub : ["null", "true", "false", "_utils"] ⊆ keywords := by decide
      exact fun hmem => localName_notMem_keywords _ (hsub hmem)
    | context _ => exact (by decide : "_ctx" ∉ ["null", "true", "false", "_utils"])
    | symbol _ => exact (by decide : "_symbols" ∉ ["null", "true", "false", "_utils"])
  simp only [List.mem_cons, List.not_mem_nil, or_false, not_or] at hne
  simp [Opening.ofWord, hne]

/-- Dotted names start with a word. -/
lemma opening_dotted {e : Expr} (h : e.Dotted Expr.IsPlaced) {rest : List Char}
    (hrest : ∀ d ∈ rest.head?, isNamePart d = false) :
    Opening.of ((expr e).toList ++ rest) = .name := by
  obtain ⟨root, names, hroot, hnames, rfl, htext⟩ := exists_of_dotted h
  have hword := isIdentifier_word hroot
  obtain ⟨c, cs, hcs, hc, _⟩ := hword
  have hdigit : Text.isDigit c = false := (Token.of_isNameStart hc).2.2.1
  rw [htext, toList_expr_of_isPlaced hroot, List.append_assoc, List.append_assoc,
    Opening.of_word (List.all_eq_true.2 (isIdentifier_word hroot).forall_isNamePart)
      (by simp [hcs, hdigit]) (by simp [hcs])
      (not_isNamePart_tail hroot (not_isNamePart_dots names hrest)), ofWord_word hroot]

/-! ### Texts of operands -/

/-- An entry of a map. -/
def entry (p : String × Expr) : String :=
  Text.jsonQuote p.1 ++ ": " ++ expr p.2

lemma exprs_eq_map (es : List Expr) : exprs es = es.map expr := by
  induction es with
  | nil => rfl
  | cons e rest ih => rw [exprs, ih, List.map_cons]

lemma entries_eq_map (es : List (String × Expr)) : entries es = es.map entry := by
  induction es with
  | nil => rfl
  | cons p rest ih =>
    obtain ⟨k, e⟩ := p
    rw [entries, ih, List.map_cons]
    rfl

lemma toList_list (items : List Expr) (rest : List Char) : (expr (.list items)).toList ++ rest =
    '[' :: ((commas (items.map expr)).toList ++ ']' :: rest) := by
  simp [expr, exprs_eq_map]

lemma toList_map (es : List (String × Expr)) (rest : List Char) : (expr (.map es)).toList ++ rest =
    '\x7b' :: ((commas (es.map entry)).toList ++ '\x7d' :: rest) := by
  simp [expr, braced, entries_eq_map]

lemma toList_entry (p : String × Expr) (rest : List Char) : (entry p).toList ++ rest =
    (Text.jsonQuote p.1).toList ++ ':' :: ' ' :: ((expr p.2).toList ++ rest) := by
  simp [entry]

/-- A call, keyword arguments aside. -/
def call (callee : Expr) (args : List Expr) : String :=
  expr callee ++ "(" ++ commas (exprs args) ++ ")"

lemma toList_call (callee : Expr) (args : List Expr) (rest : List Char) :
    (call callee args).toList ++ rest =
      (expr callee).toList ++ '(' :: ((commas (args.map expr)).toList ++ ')' :: rest) := by
  simp [call, exprs_eq_map]

lemma expr_call (callee : Expr) (args : List Expr) :
    expr (.call callee args []) = call callee args := by
  rw [expr, call]

/-- What stands in front of keyword arguments. -/
def wrapper : String :=
  "_utils.withKwargs(_ctx, "

/-- A call with what stands around it behind keyword arguments. -/
def wrapped (call : String) (rest : List Char) : List Char :=
  ", function () ".toList ++ '\x7b' :: (" return ".toList ++ (call.toList ++ ("; ".toList ++
    '\x7d' :: ')' :: rest)))

lemma toList_wrapped (before kwargs between start call stop : String) (rest : List Char) :
    (before ++ braced kwargs ++ between ++ braced (start ++ call ++ stop) ++ ")").toList ++ rest =
      before.toList ++ '\x7b' :: (kwargs.toList ++ '\x7d' :: (between.toList ++
        '\x7b' :: (start.toList ++ (call.toList ++ (stop.toList ++ '\x7d' :: ')' :: rest))))) := by
  simp [braced]

lemma toList_keywordCall (callee : Expr) (args : List Expr) {kwargs : List (String × Expr)}
    (hne : kwargs ≠ []) (rest : List Char) : (expr (.call callee args kwargs)).toList ++ rest =
      wrapper.toList ++ '\x7b' :: ((commas (kwargs.map entry)).toList ++
        '\x7d' :: wrapped (call callee args) rest) := by
  have hkeywords : expr (.call callee args kwargs) = wrapper ++
      braced (commas (entries kwargs)) ++ ", function () " ++
        braced (" return " ++ call callee args ++ "; ") ++ ")" := by
    rw [call, expr, wrapper]
    exact hne
  rw [hkeywords, entries_eq_map]
  exact toList_wrapped wrapper _ _ _ _ _ rest

/-! ### Operands -/

/-- What the texts of numbers consist of. -/
def isNumeralPart (c : Char) : Bool :=
  c.isDigit || c == '.' || c == '-'

/-- **The numbers are told apart** by their texts, which cannot be taken for anything else. -/
structure NumbersApart (number : Number → Prop) : Prop where
  head : ∀ {n}, number n → ∃ c cs, n.text.toList = c :: cs ∧ (c.isDigit = true ∨ c = '-')
  chars : ∀ {n}, number n → ∀ c ∈ n.text.toList, isNumeralPart c = true
  equals : ∀ {m n}, number m → number n → m.text = n.text → m.equals n = true

section Operands

variable {number : Number → Prop} (H : NumbersApart number)

/-- A mark tells what starts with it. -/
lemma Opening.of_mark {c : Char} (hc : isNamePart c = false) (rest : List Char) :
    Opening.of (c :: rest) = if c = '"' then .string else if c = '[' then .list
      else if c = '\x7b' then .map else .number := by
  have htake : (c :: rest).takeWhile isNamePart = [] := by rw [List.takeWhile_cons, hc]; rfl
  rw [Opening.of, htake]
  simp

/-- A digit tells that a number starts with it. -/
lemma Opening.of_digit {c : Char} (hc : c.isDigit = true) (rest : List Char) :
    Opening.of (c :: rest) = .number := by
  have hlow : c.toNat < 128 := by
    have hle : c.val ≤ '9'.val := of_decide_eq_true (Bool.and_eq_true_iff.1 hc).2
    exact Nat.lt_of_le_of_lt (UInt32.le_iff_toNat_le.1 hle) (by decide)
  have hpart : isNamePart c = true := by
    simp [isNamePart, Text.isWord, hlow, Char.isAlphanum, hc]
  have htake : (c :: rest).takeWhile isNamePart = c :: rest.takeWhile isNamePart :=
    List.takeWhile_cons_of_pos hpart
  rw [Opening.of, htake]
  simp [Text.isDigit, hlow, hc]

/-- **Operands** are regular expressions other than an expression with an index. -/
inductive IsOperand (number : Number → Prop) : Expr → Prop
  | literal {l : Literal} : (∀ n, l = .number n → number n) → IsOperand number (.literal l)
  | dotted {e : Expr} : e.Dotted Expr.IsPlaced → IsOperand number e
  | list {items : List Expr} : (∀ e ∈ items, e.Regular Expr.IsPlaced number) →
      IsOperand number (.list items)
  | map {es : List (String × Expr)} : (∀ p ∈ es, p.2.Regular Expr.IsPlaced number) →
      IsOperand number (.map es)
  | call {callee : Expr} {args : List Expr} {kwargs : List (String × Expr)} :
      callee.Dotted Expr.IsPlaced → (∀ e ∈ args, e.Regular Expr.IsPlaced number) →
      (∀ p ∈ kwargs, p.2.Regular Expr.IsPlaced number) →
      IsOperand number (.call callee args kwargs)

lemma opening_of_dotted {e : Expr} (h : e.Dotted Expr.IsPlaced) : opening e = .name := by
  cases h with
  | root he => cases he <;> rfl
  | member _ _ => rfl

include H in
/-- What the text of an operand starts like is the kind of the operand. -/
lemma opening_text {o : Expr} (ho : IsOperand number o) {rest : List Char} (hrest : Follows rest) :
    Opening.of ((expr o).toList ++ rest) = opening o := by
  cases ho with
  | @literal l hl =>
    cases l with
    | nothing =>
      exact Opening.of_word (w := "null") (by decide) (by decide) (by decide) hrest.not_isNamePart
    | bool b =>
      cases b with
      | true =>
        exact Opening.of_word (w := "true") (by decide) (by decide) (by decide)
          hrest.not_isNamePart
      | false =>
        exact Opening.of_word (w := "false") (by decide) (by decide) (by decide)
          hrest.not_isNamePart
    | number n =>
      obtain ⟨c, cs, htext, hc⟩ := H.head (hl n rfl)
      show Opening.of (n.text.toList ++ rest) = .number
      rw [htext, List.cons_append]
      obtain hc | rfl := hc
      · exact Opening.of_digit hc _
      · rw [Opening.of_mark (by decide)]
        rfl
    | string s =>
      show Opening.of ((Text.jsonQuote s).toList ++ rest) = .string
      rw [Text.jsonQuote, String.toList_ofList, List.cons_append, List.cons_append,
        Opening.of_mark (by decide), if_pos rfl]
  | dotted he => rw [opening_of_dotted he, opening_dotted he hrest.not_isNamePart]
  | @list items _ =>
    rw [toList_list, Opening.of_mark (by decide)]
    rfl
  | @map es _ =>
    rw [toList_map, Opening.of_mark (by decide)]
    rfl
  | @call callee args kwargs hcallee _ _ =>
    cases kwargs with
    | nil =>
      rw [expr_call, toList_call, opening_dotted hcallee (by simpa using by decide)]
      rfl
    | cons p ps =>
      have hsplit : wrapper.toList = "_utils".toList ++ '.' :: "withKwargs(_ctx, ".toList := by
        decide
      rw [toList_keywordCall callee args (List.cons_ne_nil p ps), hsplit, List.append_assoc,
        Opening.of_word (by decide) (by decide) (by decide) (by simpa using by decide)]
      rfl

/-- What the kind of an operand says of it. -/
def Opening.Describes (number : Number → Prop) (o : Expr) : Opening → Prop
  | .nothing => o = .literal .nothing
  | .bool => ∃ b, o = .literal (.bool b)
  | .number => ∃ n, number n ∧ o = .literal (.number n)
  | .string => ∃ s, o = .literal (.string s)
  | .list => ∃ items, (∀ e ∈ items, e.Regular Expr.IsPlaced number) ∧ o = .list items
  | .map => ∃ es, (∀ p ∈ es, p.2.Regular Expr.IsPlaced number) ∧ o = .map es
  | .name => o.Dotted Expr.IsPlaced ∨ ∃ callee args, callee.Dotted Expr.IsPlaced ∧
      (∀ e ∈ args, e.Regular Expr.IsPlaced number) ∧ o = .call callee args []
  | .keywords => ∃ callee args kwargs, callee.Dotted Expr.IsPlaced ∧
      (∀ e ∈ args, e.Regular Expr.IsPlaced number) ∧
      (∀ p ∈ kwargs, p.2.Regular Expr.IsPlaced number) ∧ kwargs ≠ [] ∧
      o = .call callee args kwargs

lemma describes_opening {o : Expr} (ho : IsOperand number o) :
    (opening o).Describes number o := by
  cases ho with
  | @literal l hl =>
    cases l with
    | nothing => rfl
    | bool b => exact ⟨b, rfl⟩
    | number n => exact ⟨n, hl n rfl, rfl⟩
    | string s => exact ⟨s, rfl⟩
  | dotted he =>
    rw [opening_of_dotted he]
    exact .inl he
  | @list items hitems => exact ⟨items, hitems, rfl⟩
  | @map es hes => exact ⟨es, hes, rfl⟩
  | @call callee args kwargs hcallee hargs hkwargs =>
    cases kwargs with
    | nil => exact .inr ⟨callee, args, hcallee, hargs, rfl⟩
    | cons p ps =>
      exact ⟨callee, args, p :: ps, hcallee, hargs, hkwargs, List.cons_ne_nil p ps, rfl⟩

/-- **The expression is read off** any text that it starts, up to where it is closed. -/
def Reads (number : Number → Prop) (e : Expr) : Prop :=
  ∀ e' : Expr, e'.Regular Expr.IsPlaced number → ∀ {rest rest' : List Char}, Closes rest →
    Closes rest' → (expr e).toList ++ rest = (expr e').toList ++ rest' →
    e.equals e' = true ∧ rest = rest'

/-- The operand is read off any text that it starts, up to where it is closed or indexed. -/
def ReadsOperand (number : Number → Prop) (o : Expr) : Prop :=
  ∀ o' : Expr, IsOperand number o' → ∀ {rest rest' : List Char}, Follows rest → Follows rest' →
    (expr o).toList ++ rest = (expr o').toList ++ rest' → o.equals o' = true ∧ rest = rest'

include H in
/-- What starts a text that an operand starts as well is of the same kind. -/
lemma describes_of_append_eq {o o' : Expr} (ho : IsOperand number o) (ho' : IsOperand number o')
    {rest rest' : List Char} (hrest : Follows rest) (hrest' : Follows rest')
    (h : (expr o).toList ++ rest = (expr o').toList ++ rest') :
    (opening o).Describes number o' := by
  rw [← opening_text H ho hrest, h, opening_text H ho' hrest']
  exact describes_opening ho'

lemma Follows.not_isNumeralPart {rest : List Char} (h : Follows rest) :
    ∀ c ∈ rest.head?, isNumeralPart c = false := by
  have hall : ('[' :: closers).all (fun c => !isNumeralPart c) = true := by decide
  exact fun c hc => by simpa using List.all_eq_true.1 hall c (h c hc)

include H in
lemma readsOperand_literal {l : Literal} (hl : ∀ n, l = .number n → number n) :
    ReadsOperand number (.literal l) := by
  intro o' ho' rest rest' hrest hrest' h
  have ho := describes_of_append_eq H (.literal hl) ho' hrest hrest' h
  cases l with
  | nothing =>
    obtain rfl := ho
    exact ⟨rfl, List.append_cancel_left h⟩
  | bool b =>
    obtain ⟨b', rfl⟩ := ho
    obtain rfl | hb := eq_or_ne b b'
    · exact ⟨beq_self_eq_true _, List.append_cancel_left h⟩
    · have hhead := congrArg List.head? h
      cases b <;> cases b' <;> simp [expr, literal] at hb hhead
  | number n =>
    obtain ⟨n', hn', rfl⟩ := ho
    obtain ⟨htext, hrests⟩ := run_append_inj (H.chars (hl n rfl)) (H.chars hn')
      hrest.not_isNumeralPart hrest'.not_isNumeralPart h
    exact ⟨H.equals (hl n rfl) hn' (String.toList_inj.1 htext), hrests⟩
  | string s =>
    obtain ⟨s', rfl⟩ := ho
    obtain ⟨rfl, hrests⟩ := Text.jsonQuote_append_inj h
    exact ⟨beq_self_eq_true _, hrests⟩

/-- Dotted names go on with neither of what may follow. -/
lemma ends_paren (rest : List Char) : Ends ('(' :: rest) := by
  rintro c hc
  obtain rfl := Option.some.inj hc
  decide

lemma not_follows_paren (rest : List Char) : ¬ Follows ('(' :: rest) := by
  intro h
  have hmem := h '(' rfl
  revert hmem
  decide

/-- A call is not taken for a dotted name. -/
lemma dotted_ne_call {e callee : Expr} (he : e.Dotted Expr.IsPlaced)
    (hcallee : callee.Dotted Expr.IsPlaced) {args : List Expr} {rest rest' : List Char}
    (hrest : Follows rest) : (expr e).toList ++ rest ≠ (call callee args).toList ++ rest' := by
  rw [toList_call]
  intro h
  obtain ⟨_, rfl⟩ := dotted_append_inj he hcallee hrest.ends (ends_paren _) h
  exact not_follows_paren _ hrest

include H in
lemma readsOperand_dotted {e : Expr} (he : e.Dotted Expr.IsPlaced) : ReadsOperand number e := by
  intro o' ho' rest rest' hrest hrest' h
  have ho := describes_of_append_eq H (.dotted he) ho' hrest hrest' h
  rw [opening_of_dotted he] at ho
  obtain ho | ⟨callee, args, hcallee, _, rfl⟩ := ho
  · obtain ⟨rfl, hrests⟩ := dotted_append_inj he ho hrest.ends hrest'.ends h
    exact ⟨he.equals_self, hrests⟩
  · rw [expr_call] at h
    exact absurd h (dotted_ne_call he hcallee hrest)

include H in
/-- No expression is empty or starts like what closes one. -/
lemma head_expr {e : Expr} (he : e.Regular Expr.IsPlaced number) :
    ∃ c cs, (expr e).toList = c :: cs ∧ c ∉ closers := by
  have dotted {e : Expr} (he : e.Dotted Expr.IsPlaced) :
      ∃ c cs, (expr e).toList = c :: cs ∧ c ∉ closers := by
    obtain ⟨root, names, hroot, _, rfl, htext⟩ := exists_of_dotted he
    obtain ⟨c, cs, hcs, hc, _⟩ := isIdentifier_word hroot
    refine ⟨c, cs ++ tail root ++ dots names, ?_, fun hmem => ?_⟩
    · rw [htext, toList_expr_of_isPlaced hroot, hcs]
      simp
    · have hpart := (Token.of_isNameStart hc).1
      rw [not_isNamePart_of_closers (List.mem_cons_of_mem _ hmem)] at hpart
      cases hpart
  have front {s t : List Char} (hs : ∃ c cs, s = c :: cs ∧ c ∉ closers) :
      ∃ c cs, s ++ t = c :: cs ∧ c ∉ closers := by
    obtain ⟨c, cs, rfl, hc⟩ := hs
    exact ⟨c, cs ++ t, rfl, hc⟩
  have hempty (s : String) : s.toList ++ [] = s.toList := List.append_nil _
  induction he with
  | @literal l hl =>
    cases l with
    | nothing => exact ⟨'n', "ull".toList, by decide, by decide⟩
    | bool b =>
      cases b with
      | true => exact ⟨'t', "rue".toList, by decide, by decide⟩
      | false => exact ⟨'f', "alse".toList, by decide, by decide⟩
    | number n =>
      obtain ⟨c, cs, htext, hc⟩ := H.head (hl n rfl)
      refine ⟨c, cs, htext, fun hmem => ?_⟩
      have hall : closers.all (fun c => !isNumeralPart c) = true := by decide
      have hnot : isNumeralPart c = false := by simpa using List.all_eq_true.1 hall c hmem
      obtain hc | rfl := hc <;> simp_all [isNumeralPart]
    | string s => exact ⟨'"', _, String.toList_ofList, by decide⟩
  | dotted he => exact dotted he
  | @index target place _ _ ih _ =>
    rw [expr, String.append_assoc, String.append_assoc, String.toList_append]
    exact front ih
  | @list items _ _ =>
    rw [← hempty, toList_list]
    exact ⟨'[', _, rfl, by decide⟩
  | @map es _ _ =>
    rw [← hempty, toList_map]
    exact ⟨'\x7b', _, rfl, by decide⟩
  | @call callee args kwargs hcallee _ _ _ _ =>
    cases kwargs with
    | nil =>
      rw [expr_call, ← hempty, toList_call]
      exact front (dotted hcallee)
    | cons p ps =>
      rw [← hempty, toList_keywordCall callee args (List.cons_ne_nil p ps)]
      exact front ⟨'_', "utils.withKwargs(_ctx, ".toList, by decide, by decide⟩

section Parts

variable {close : Char} {rest rest' : List Char}

include H in
lemma items_append_inj {es es' : List Expr} (hreads : ∀ e ∈ es, Reads number e)
    (hes : ∀ e ∈ es, e.Regular Expr.IsPlaced number)
    (hes' : ∀ e ∈ es', e.Regular Expr.IsPlaced number) (hclose : close ∈ closers)
    (hne : close ≠ ',') (h : (commas (es.map expr)).toList ++ close :: rest =
      (commas (es'.map expr)).toList ++ close :: rest') :
    Expr.equalItems es es' = true ∧ rest = rest' := by
  obtain ⟨hequal, hrests⟩ := commas_append_inj (R := fun e e' => e.equals e' = true)
    (fun _ => head_expr H) (fun e he e' he' => hreads e he e' he') hes hes' hclose hne h
  exact ⟨Expr.equalItems_of_forall₂ hequal, hrests⟩

lemma entries_append_inj {es es' : List (String × Expr)} (hreads : ∀ p ∈ es, Reads number p.2)
    (hes : ∀ p ∈ es, p.2.Regular Expr.IsPlaced number)
    (hes' : ∀ p ∈ es', p.2.Regular Expr.IsPlaced number) (hclose : close ∈ closers)
    (hne : close ≠ ',') (h : (commas (es.map entry)).toList ++ close :: rest =
      (commas (es'.map entry)).toList ++ close :: rest') :
    Expr.equalEntries es es' = true ∧ rest = rest' := by
  have hhead (p : String × Expr) (_ : p.2.Regular Expr.IsPlaced number) :
      ∃ c cs, (entry p).toList = c :: cs ∧ c ∉ closers := by
    rw [← List.append_nil (entry p).toList, toList_entry, Text.jsonQuote, String.toList_ofList]
    exact ⟨'"', _, rfl, by decide⟩
  have hinj (p : String × Expr) (hp : p ∈ es) (p' : String × Expr)
      (hp' : p'.2.Regular Expr.IsPlaced number) {rest rest' : List Char} (hrest : Closes rest)
      (hrest' : Closes rest') (h : (entry p).toList ++ rest = (entry p').toList ++ rest') :
      (p.1 = p'.1 ∧ p.2.equals p'.2 = true) ∧ rest = rest' := by
    rw [toList_entry, toList_entry] at h
    obtain ⟨hkey, hmore⟩ := Text.jsonQuote_append_inj h
    obtain ⟨hequal, hrests⟩ := hreads p hp p'.2 hp' hrest hrest'
      (List.cons.inj (List.cons.inj hmore).2).2
    exact ⟨⟨hkey, hequal⟩, hrests⟩
  obtain ⟨hequal, hrests⟩ := commas_append_inj hhead hinj hes hes' hclose hne h
  exact ⟨Expr.equalEntries_of_forall₂ hequal, hrests⟩

end Parts

include H in
lemma readsOperand_list {items : List Expr} (hreads : ∀ e ∈ items, Reads number e)
    (hitems : ∀ e ∈ items, e.Regular Expr.IsPlaced number) :
    ReadsOperand number (.list items) := by
  intro o' ho' rest rest' hrest hrest' h
  have ho := describes_of_append_eq H (.list hitems) ho' hrest hrest' h
  obtain ⟨items', hitems', rfl⟩ := ho
  rw [toList_list, toList_list, List.cons_inj_right] at h
  exact items_append_inj H hreads hitems hitems' (by decide) (by decide) h

include H in
lemma readsOperand_map {es : List (String × Expr)} (hreads : ∀ p ∈ es, Reads number p.2)
    (hes : ∀ p ∈ es, p.2.Regular Expr.IsPlaced number) : ReadsOperand number (.map es) := by
  intro o' ho' rest rest' hrest hrest' h
  have ho := describes_of_append_eq H (.map hes) ho' hrest hrest' h
  obtain ⟨es', hes', rfl⟩ := ho
  rw [toList_map, toList_map, List.cons_inj_right] at h
  exact entries_append_inj hreads hes hes' (by decide) (by decide) h

include H in
/-- A call determines what is called, its arguments, and where it ends. -/
lemma call_append_inj {callee callee' : Expr} {args args' : List Expr}
    (hcallee : callee.Dotted Expr.IsPlaced) (hcallee' : callee'.Dotted Expr.IsPlaced)
    (hreads : ∀ e ∈ args, Reads number e) (hargs : ∀ e ∈ args, e.Regular Expr.IsPlaced number)
    (hargs' : ∀ e ∈ args', e.Regular Expr.IsPlaced number) {rest rest' : List Char}
    (h : (call callee args).toList ++ rest = (call callee' args').toList ++ rest') :
    callee = callee' ∧ Expr.equalItems args args' = true ∧ rest = rest' := by
  rw [toList_call, toList_call] at h
  obtain ⟨hequal, hmore⟩ := dotted_append_inj hcallee hcallee' (ends_paren _) (ends_paren _) h
  exact ⟨hequal, items_append_inj H hreads hargs hargs' (by decide) (by decide)
    (List.cons.inj hmore).2⟩

include H in
lemma readsOperand_call {callee : Expr} {args : List Expr} {kwargs : List (String × Expr)}
    (hcallee : callee.Dotted Expr.IsPlaced) (hreadsArgs : ∀ e ∈ args, Reads number e)
    (hargs : ∀ e ∈ args, e.Regular Expr.IsPlaced number)
    (hreadsKwargs : ∀ p ∈ kwargs, Reads number p.2)
    (hkwargs : ∀ p ∈ kwargs, p.2.Regular Expr.IsPlaced number) :
    ReadsOperand number (.call callee args kwargs) := by
  intro o' ho' rest rest' hrest hrest' h
  have ho := describes_of_append_eq H (.call hcallee hargs hkwargs) ho' hrest hrest' h
  cases kwargs with
  | nil =>
    rw [expr_call] at h
    obtain ho | ⟨callee', args', hcallee', hargs', rfl⟩ := ho
    · exact absurd h.symm (dotted_ne_call ho hcallee hrest')
    · rw [expr_call] at h
      obtain ⟨rfl, hequal, hrests⟩ := call_append_inj H hcallee hcallee' hreadsArgs hargs hargs' h
      exact ⟨by rw [Expr.equals, hcallee.equals_self, hequal]; rfl, hrests⟩
  | cons p ps =>
    obtain ⟨callee', args', kwargs', hcallee', hargs', hkwargs', hne', rfl⟩ := ho
    rw [toList_keywordCall callee args (List.cons_ne_nil p ps),
      toList_keywordCall callee' args' hne'] at h
    have hentries := (List.cons.inj (List.append_cancel_left h)).2
    obtain ⟨hequalEntries, hwrapped⟩ :=
      entries_append_inj hreadsKwargs hkwargs hkwargs' (by decide) (by decide) hentries
    have hcall := List.append_cancel_left (List.cons.inj (List.append_cancel_left hwrapped)).2
    obtain ⟨rfl, hequal, hmore⟩ :=
      call_append_inj H hcallee hcallee' hreadsArgs hargs hargs' hcall
    refine ⟨by rw [Expr.equals, hcallee.equals_self, hequal, hequalEntries]; rfl, ?_⟩
    exact (List.cons.inj (List.cons.inj (List.append_cancel_left hmore)).2).2

/-! ### Expressions -/

/-- Indexes in brackets. -/
def indexes (places : List Expr) : List Char :=
  places.flatMap fun p => '[' :: ((expr p).toList ++ [']'])

lemma toList_foldl_index (e : Expr) (places : List Expr) :
    (expr (places.foldl .index e)).toList = (expr e).toList ++ indexes places := by
  induction places generalizing e with
  | nil => exact (List.append_nil _).symm
  | cons p places ih => rw [List.foldl_cons, ih, expr]; simp [indexes]

lemma follows_indexes (places : List Expr) {rest : List Char} (hrest : Closes rest) :
    Follows (indexes places ++ rest) := by
  cases places with
  | nil => exact hrest.follows
  | cons p places =>
    rintro c hc
    obtain rfl := Option.some.inj hc
    exact List.mem_cons_self

lemma indexes_append_inj {places places' : List Expr} (hreads : ∀ p ∈ places, Reads number p)
    (hplaces' : ∀ p ∈ places', p.Regular Expr.IsPlaced number) {rest rest' : List Char}
    (hrest : Closes rest) (hrest' : Closes rest')
    (h : indexes places ++ rest = indexes places' ++ rest') :
    List.Forall₂ (fun p p' => p.equals p' = true) places places' ∧ rest = rest' := by
  have mixed {p : Expr} {places : List Expr} {rest rest' : List Char} (hrest : Closes rest) :
      rest ≠ indexes (p :: places) ++ rest' := by
    rintro rfl
    exact absurd (hrest '[' rfl) (by decide)
  induction places generalizing places' with
  | nil =>
    cases places' with
    | nil => exact ⟨.nil, h⟩
    | cons p' places' => exact absurd h (mixed hrest)
  | cons p places ih =>
    cases places' with
    | nil => exact absurd h.symm (mixed hrest')
    | cons p' places' =>
      rw [List.forall_mem_cons] at hreads hplaces'
      have hsplit (p : Expr) (places : List Expr) (rest : List Char) :
          indexes (p :: places) ++ rest =
            '[' :: ((expr p).toList ++ ']' :: (indexes places ++ rest)) := by
        simp [indexes]
      rw [hsplit, hsplit, List.cons_inj_right] at h
      obtain ⟨hequal, hmore⟩ := hreads.1 p' hplaces'.1 (closes_cons (by decide) _)
        (closes_cons (by decide) _) h
      obtain ⟨hplaces, hrests⟩ := ih hreads.2 hplaces'.2 (List.cons.inj hmore).2
      exact ⟨.cons hequal hplaces, hrests⟩

/-- An expression is an operand with indexes. -/
lemma exists_operand {e : Expr} (he : e.Regular Expr.IsPlaced number) :
    ∃ (o : Expr) (places : List Expr), IsOperand number o ∧
      (∀ p ∈ places, p.Regular Expr.IsPlaced number) ∧ e = places.foldl .index o := by
  induction he with
  | @index target place _ hplace ih _ =>
    obtain ⟨o, places, ho, hplaces, rfl⟩ := ih
    refine ⟨o, places ++ [place], ho,
      List.forall_mem_append.2 ⟨hplaces, List.forall_mem_singleton.2 hplace⟩, ?_⟩
    rw [List.foldl_append]
    rfl
  | literal hl => exact ⟨_, [], .literal hl, List.forall_mem_nil _, rfl⟩
  | dotted he => exact ⟨_, [], .dotted he, List.forall_mem_nil _, rfl⟩
  | list hitems _ => exact ⟨_, [], .list hitems, List.forall_mem_nil _, rfl⟩
  | map hes _ => exact ⟨_, [], .map hes, List.forall_mem_nil _, rfl⟩
  | call hcallee hargs hkwargs _ _ =>
    exact ⟨_, [], .call hcallee hargs hkwargs, List.forall_mem_nil _, rfl⟩

/-- The expression is read off with any indexes that are. -/
def ReadsWith (number : Number → Prop) (e : Expr) : Prop :=
  ∀ places : List Expr, (∀ p ∈ places, Reads number p) → Reads number (places.foldl .index e)

lemma ReadsWith.reads {e : Expr} (h : ReadsWith number e) : Reads number e :=
  h [] (List.forall_mem_nil _)

lemma ReadsOperand.readsWith {o : Expr} (h : ReadsOperand number o) : ReadsWith number o := by
  intro places hreads e' he' rest rest' hrest hrest' heq
  obtain ⟨o', places', ho', hplaces', rfl⟩ := exists_operand he'
  rw [toList_foldl_index, toList_foldl_index, List.append_assoc, List.append_assoc] at heq
  obtain ⟨hequal, hmore⟩ := h o' ho' (follows_indexes places hrest)
    (follows_indexes places' hrest') heq
  obtain ⟨hplaces, hrests⟩ := indexes_append_inj hreads hplaces' hrest hrest' hmore
  exact ⟨Expr.equals_foldl_index hequal hplaces, hrests⟩

include H in
/-- **Unique readability**: regular expressions are read off any text that they start. -/
lemma readsWith_of_regular {e : Expr} (he : e.Regular Expr.IsPlaced number) :
    ReadsWith number e := by
  induction he with
  | literal hl => exact (readsOperand_literal H hl).readsWith
  | dotted he => exact (readsOperand_dotted H he).readsWith
  -- An index is one more of those that the target is read off with.
  | index _ _ ih ihplace =>
    intro places hreads
    exact ih (_ :: places) (List.forall_mem_cons.2 ⟨ihplace.reads, hreads⟩)
  | list hitems ih => exact (readsOperand_list H (fun e he => (ih e he).reads) hitems).readsWith
  | map hes ih => exact (readsOperand_map H (fun p hp => (ih p hp).reads) hes).readsWith
  | call hcallee hargs hkwargs ihargs ihkwargs =>
    exact (readsOperand_call H hcallee (fun e he => (ihargs e he).reads) hargs
      (fun p hp => (ihkwargs p hp).reads) hkwargs).readsWith

end Operands

end Script

end Stencil
