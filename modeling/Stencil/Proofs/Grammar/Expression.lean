import Stencil.Proofs.Reading
import Mathlib.Data.List.Induction

/-!
The grammar of expressions. `Expr.Derives` says which tokens, white space aside, are written for
which **phrase**: for an expression, an operand, the indexes behind it, the items of a list, the
entries of a map, or the arguments of a call. Names joined by dots are the members of a variable,
the first names innermost (`Expr.Named`).

* What the readers take from the front of a list of tokens is a phrase (`Expr.derives_of_read`).
* A phrase is taken by its reader, whatever comes behind it (`Expr.Derives.taken`). Only one thing
  has to be looked at there: an expression goes on if an opening bracket comes next.

The main result is `expressions_exact`.
-/

namespace Stencil

namespace Expr

/-! ### Names -/

/-- **Names joined by dots** stand for members of a variable, one after the other. -/
inductive Named : String → Expr → Prop
  | var {name : String} : '.' ∉ name.toList → Named name (.var name)
  | member {names name : String} {e : Expr} : Named names e → '.' ∉ name.toList →
      Named (names ++ "." ++ name) (.member e name)

lemma ofNames_concat {names : List String} (hne : names ≠ []) (name : String) :
    ofNames (names ++ [name]) = .member (ofNames names) name := by
  cases names with
  | nil => exact absurd rfl hne
  | cons root members => simp [ofNames]

/-- The expression of a text is determined by its names. -/
lemma Named.eq_ofPath {text : String} {e : Expr} (h : Named text e) : e = ofPath text := by
  induction h with
  | var hname => simp [ofPath, Text.fields_of_notMem hname, ofNames]
  | @member names name e _ hname ih =>
    have htext : (names ++ "." ++ name).toList = names.toList ++ '.' :: name.toList := by simp
    rw [ofPath, htext, Text.fields_append _ hname, List.map_append, List.map_singleton,
      String.ofList_toList, ofNames_concat (by simp [Text.fields_ne_nil]), ih, ofPath]

lemma named_ofNames {ps : List (List Char)} (hne : ps ≠ []) (h : ∀ p ∈ ps, '.' ∉ p) :
    Named (String.ofList (Text.joinFields '.' ps)) (ofNames (ps.map String.ofList)) := by
  induction ps using List.reverseRecOn with
  | nil => exact absurd rfl hne
  | append_singleton ps p ih =>
    rw [List.forall_mem_append, List.forall_mem_singleton] at h
    have hp : '.' ∉ (String.ofList p).toList := by simpa using h.2
    cases ps with
    | nil => exact .var hp
    | cons q qs =>
      have htext : String.ofList (Text.joinFields '.' (q :: qs) ++ '.' :: p) =
          String.ofList (Text.joinFields '.' (q :: qs)) ++ "." ++ String.ofList p := by
        simp [← String.toList_inj]
      rw [Text.joinFields_concat _ (List.cons_ne_nil q qs), List.map_append, List.map_singleton,
        ofNames_concat (by simp), htext]
      exact .member (ih (List.cons_ne_nil q qs) h.1) hp

/-- Every text consists of names. -/
lemma named_ofPath (text : String) : Named text (ofPath text) := by
  have hnames := named_ofNames (Text.fields_ne_nil '.' text.toList)
    fun p => Text.notMem_of_mem_fields
  rwa [Text.joinFields_fields, String.ofList_toList] at hnames

lemma named_foldl {root : String} {members : List String}
    (h : ∀ name ∈ root :: members, '.' ∉ name.toList) :
    Named (".".intercalate (root :: members)) (members.foldl .member (.var root)) := by
  induction members using List.reverseRecOn with
  | nil => exact .var (h root List.mem_cons_self)
  | append_singleton members name ih =>
    rw [← List.cons_append, List.forall_mem_append, List.forall_mem_singleton] at h
    rw [← List.cons_append, Text.intercalate_concat _ _ (List.cons_ne_nil _ _),
      ← String.append_assoc, List.foldl_append, List.foldl_cons, List.foldl_nil]
    exact .member (ih h.1) h.2

/-- Dotted names are the members of a variable, from the left to the right. -/
lemma named_iff {text : String} {e : Expr} :
    Named text e ↔ ∃ root members, text = ".".intercalate (root :: members) ∧
      (∀ name ∈ root :: members, '.' ∉ name.toList) ∧ e = members.foldl .member (.var root) := by
  constructor
  · intro h
    induction h with
    | @var name hname => exact ⟨name, [], by simp, by simpa using hname, rfl⟩
    | @member names name e _ hname ih =>
      obtain ⟨root, members, rfl, hplain, rfl⟩ := ih
      refine ⟨root, members ++ [name], ?_, ?_, by rw [List.foldl_append]; rfl⟩
      · rw [← List.cons_append, Text.intercalate_concat _ _ (List.cons_ne_nil _ _),
          ← String.append_assoc]
      · rw [← List.cons_append, List.forall_mem_append, List.forall_mem_singleton]
        exact ⟨hplain, hname⟩
  · rintro ⟨root, members, rfl, hplain, rfl⟩
    exact named_foldl hplain

/-! ### Phrases -/

/-- What tokens can be written for. -/
inductive Phrase where
  | expr (e : Expr)
  /-- What indexes can stand behind. -/
  | operand (e : Expr)
  /-- Indexes in brackets, by which `e` is reached from `target`. -/
  | indexes (target e : Expr)
  /-- What stands between the brackets of a list. -/
  | items (es : List Expr)
  /-- What stands between the braces of a map. -/
  | entries (es : List (String × Expr))
  /-- What stands between the parentheses of a call. -/
  | arguments (args : List Expr) (kwargs : List (String × Expr))
  /-- Arguments of which there is at least one. -/
  | someArguments (args : List Expr) (kwargs : List (String × Expr))
  /-- Keyword arguments of which there is at least one. -/
  | keywords (kwargs : List (String × Expr))

/-- The key of an entry is a string or a name without a dot. -/
inductive Key : Token → String → Prop
  | string {t : Token} : t.kind = .string →
      Key t (String.ofList (Text.unescape t.text.toList))
  | name {t : Token} : t.kind = .path → t.isPlain = true → Key t t.text

/-- **The grammar**: the tokens are written for the phrase. -/
inductive Derives : List Token → Phrase → Prop
  | expr {us vs : List Token} {e₀ e : Expr} : Derives us (.operand e₀) →
      Derives vs (.indexes e₀ e) → Derives (us ++ vs) (.expr e)
  | noIndex (e : Expr) : Derives [] (.indexes e e)
  | index {o c : Token} {us vs : List Token} {target place e : Expr} : o.kind = .bracketOpen →
      Derives us (.expr place) → c.kind = .bracketClose →
      Derives vs (.indexes (.index target place) e) →
      Derives (o :: (us ++ c :: vs)) (.indexes target e)
  | string {t : Token} : t.kind = .string →
      Derives [t] (.operand (.literal (.string (String.ofList (Text.unescape t.text.toList)))))
  | number {t : Token} {n : Number} : t.kind = .number →
      Number.ofNumeral? t.text.toList = some n → Derives [t] (.operand (.literal (.number n)))
  | bool {t : Token} : t.kind = .bool → Derives [t] (.operand (.literal (.bool (t.text == "true"))))
  | nothing {t : Token} : t.kind = .nothing → Derives [t] (.operand (.literal .nothing))
  | path {t : Token} {e : Expr} : t.kind = .path → Named t.text e → Derives [t] (.operand e)
  | emptyCall {t : Token} {callee : Expr} : t.kind = .emptyCall → Named t.text callee →
      Derives [t] (.operand (.call callee [] []))
  | call {o c : Token} {us : List Token} {callee : Expr} {args : List Expr}
      {kwargs : List (String × Expr)} : o.kind = .call → Named o.text callee →
      Derives us (.arguments args kwargs) → c.kind = .parenClose →
      Derives (o :: (us ++ [c])) (.operand (.call callee args kwargs))
  | list {o c : Token} {us : List Token} {es : List Expr} : o.kind = .bracketOpen →
      Derives us (.items es) → c.kind = .bracketClose →
      Derives (o :: (us ++ [c])) (.operand (.list es))
  | map {o c : Token} {us : List Token} {es : List (String × Expr)} : o.kind = .curlyOpen →
      Derives us (.entries es) → c.kind = .curlyClose →
      Derives (o :: (us ++ [c])) (.operand (.map es))
  | paren {o c : Token} {us : List Token} {e : Expr} : o.kind = .parenOpen →
      Derives us (.expr e) → c.kind = .parenClose → Derives (o :: (us ++ [c])) (.operand e)
  | noItem : Derives [] (.items [])
  | lastItem {us : List Token} {e : Expr} : Derives us (.expr e) → Derives us (.items [e])
  | item {c : Token} {us vs : List Token} {e : Expr} {es : List Expr} : Derives us (.expr e) →
      c.kind = .comma → Derives vs (.items es) → Derives (us ++ c :: vs) (.items (e :: es))
  | noEntry : Derives [] (.entries [])
  | lastEntry {k a : Token} {us : List Token} {name : String} {e : Expr} : Key k name →
      a.kind = .colon → Derives us (.expr e) → Derives (k :: a :: us) (.entries [(name, e)])
  | entry {k a c : Token} {us vs : List Token} {name : String} {e : Expr}
      {es : List (String × Expr)} : Key k name → a.kind = .colon → Derives us (.expr e) →
      c.kind = .comma → Derives vs (.entries es) →
      Derives (k :: a :: (us ++ c :: vs)) (.entries ((name, e) :: es))
  | noArgument : Derives [] (.arguments [] [])
  | arguments {us : List Token} {args : List Expr} {kwargs : List (String × Expr)} :
      Derives us (.someArguments args kwargs) → Derives us (.arguments args kwargs)
  | lastPositional {us : List Token} {e : Expr} : Derives us (.expr e) →
      Derives us (.someArguments [e] [])
  | positional {c : Token} {us vs : List Token} {e : Expr} {args : List Expr}
      {kwargs : List (String × Expr)} : Derives us (.expr e) → c.kind = .comma →
      Derives vs (.someArguments args kwargs) →
      Derives (us ++ c :: vs) (.someArguments (e :: args) kwargs)
  | keywords {us : List Token} {kwargs : List (String × Expr)} : Derives us (.keywords kwargs) →
      Derives us (.someArguments [] kwargs)
  | lastKeyword {k a : Token} {us : List Token} {e : Expr} : k.kind = .path → k.isPlain = true →
      a.kind = .assignment → Derives us (.expr e) → Derives (k :: a :: us) (.keywords [(k.text, e)])
  | keyword {k a c : Token} {us vs : List Token} {e : Expr} {kwargs : List (String × Expr)} :
      k.kind = .path → k.isPlain = true → a.kind = .assignment → Derives us (.expr e) →
      c.kind = .comma → Derives vs (.keywords kwargs) →
      Derives (k :: a :: (us ++ c :: vs)) (.keywords ((k.text, e) :: kwargs))

/-! ### What is read has been derived -/

lemma kind_of_expect {stop : SyntaxError} {kind : TokenKind} :
    ∀ {ts : List Token} {rest : Rest ts}, expect stop kind ts = .ok rest →
      ∃ t, ts = t :: rest.1 ∧ t.kind = kind
  | [], _, h => nomatch h
  | t :: ts, _, h => by
    rw [expect] at h
    split at h
    next hkind =>
      cases h
      exact ⟨t, rfl, hkind⟩
    next => cases h

/-- What follows an item is a comma or the closing bracket. -/
lemma kind_of_separator {stop : SyntaxError} {close : TokenKind} :
    ∀ {ts : List Token} {more : Bool} {rest : Rest ts},
      separator stop close ts = .ok (more, rest) →
      ∃ t, ts = t :: rest.1 ∧ t.kind = if more then .comma else close
  | [], _, _, h => nomatch h
  | t :: ts, _, _, h => by
    rw [separator] at h
    split at h
    next hkind =>
      cases h
      exact ⟨t, rfl, hkind⟩
    next =>
      split at h
      next hkind =>
        cases h
        exact ⟨t, rfl, hkind⟩
      next => cases h

lemma key_of_key {stop : SyntaxError} :
    ∀ {ts : List Token} {name : String} {rest : Rest ts}, key stop ts = .ok (name, rest) →
      ∃ k a, ts = k :: a :: rest.1 ∧ Key k name ∧ a.kind = .colon
  | [], _, _, h => nomatch h
  | k :: ts, _, _, h => by
    rw [key] at h
    dsimp only at h
    split at h
    next => cases h
    next name hname =>
      obtain ⟨⟨rest, hrest⟩, hexpect, h⟩ := ok_of_bind h
      cases h
      obtain ⟨a, hts, ha⟩ := kind_of_expect hexpect
      refine ⟨k, a, congrArg _ hts, ?_, ha⟩
      split at hname
      next hkind =>
        cases hname
        exact .string hkind
      next =>
        split at hname
        next hkind =>
          cases hname
          exact .name hkind.1 hkind.2
        next => cases hname

lemma kinds_of_keyword? :
    ∀ {ts : List Token} {k : Token} {rest : Rest ts}, keyword? ts = some (k, rest) →
      ∃ a, ts = k :: a :: rest.1 ∧ k.kind = .path ∧ a.kind = .assignment
  | [], _, _, h => nomatch h
  | [_], _, _, h => nomatch h
  | t :: a :: ts, _, _, h => by
    rw [keyword?] at h
    split at h
    next hkinds =>
      cases h
      exact ⟨a, rfl, hkinds⟩
    next => cases h

mutual

/-- An expression that has been read is one. -/
lemma derives_of_read {stop : SyntaxError} {ts : List Token} {e : Expr} {rest : Rest ts}
    (h : read stop ts = .ok (e, rest)) : ∃ us, ts = us ++ rest.1 ∧ Derives us (.expr e) := by
  rw [read] at h
  obtain ⟨⟨e₀, rest₁, h₁⟩, hoperand, h⟩ := ok_of_bind h
  obtain ⟨⟨e, rest₂, h₂⟩, hindexes, h⟩ := ok_of_bind h
  cases h
  obtain ⟨us, hts, hus⟩ := derives_of_readOperand hoperand
  obtain ⟨vs, hrest, hvs⟩ := derives_of_readIndexes hindexes
  dsimp only at hts hrest
  exact ⟨us ++ vs, by simp [hts, hrest], .expr hus hvs⟩
termination_by (ts.length, 2)

lemma derives_of_readIndexes {stop : SyntaxError} {target : Expr} :
    ∀ {ts : List Token} {e : Expr} {rest : Tail ts}, readIndexes stop target ts = .ok (e, rest) →
      ∃ us, ts = us ++ rest.1 ∧ Derives us (.indexes target e)
  | [], _, _, h => by
    rw [readIndexes] at h
    cases h
    exact ⟨[], rfl, .noIndex target⟩
  | o :: ts, _, _, h => by
    rw [readIndexes] at h
    split at h
    next hopen =>
      obtain ⟨⟨place, rest₁, h₁⟩, hplace, h⟩ := ok_of_bind h
      obtain ⟨⟨rest₂, h₂⟩, hclose, h⟩ := ok_of_bind h
      obtain ⟨⟨e, rest₃, h₃⟩, hmore, h⟩ := ok_of_bind h
      cases h
      obtain ⟨us, hts, hus⟩ := derives_of_read hplace
      obtain ⟨c, hrest₁, hc⟩ := kind_of_expect hclose
      obtain ⟨vs, hrest₂, hvs⟩ := derives_of_readIndexes hmore
      dsimp only at hts hrest₁ hrest₂
      exact ⟨o :: (us ++ c :: vs), by simp [hts, hrest₁, hrest₂], .index hopen hus hc hvs⟩
    next =>
      cases h
      exact ⟨[], rfl, .noIndex target⟩
termination_by ts => (ts.length, 0)

lemma derives_of_readOperand {stop : SyntaxError} :
    ∀ {ts : List Token} {e : Expr} {rest : Rest ts}, readOperand stop ts = .ok (e, rest) →
      ∃ us, ts = us ++ rest.1 ∧ Derives us (.operand e)
  | [], _, _, h => by
    rw [readOperand] at h
    cases h
  | t :: ts, _, _, h => by
    rw [readOperand] at h
    split at h
    next hkind =>
      cases h
      exact ⟨[t], rfl, .string hkind⟩
    next hkind =>
      split at h
      next n hn =>
        cases h
        exact ⟨[t], rfl, .number hkind hn⟩
      next => cases h
    next hkind =>
      cases h
      exact ⟨[t], rfl, .bool hkind⟩
    next hkind =>
      cases h
      exact ⟨[t], rfl, .nothing hkind⟩
    next hkind =>
      cases h
      exact ⟨[t], rfl, .path hkind (named_ofPath t.text)⟩
    next hkind =>
      cases h
      exact ⟨[t], rfl, .emptyCall hkind (named_ofPath t.text)⟩
    next hkind =>
      obtain ⟨⟨args, kwargs, rest₁, h₁⟩, hargs, h⟩ := ok_of_bind h
      cases h
      obtain ⟨us, c, hts, hc, hus⟩ := derives_of_readArguments hargs
      dsimp only at hts
      exact ⟨t :: (us ++ [c]), by simp [hts], .call hkind (named_ofPath t.text) hus hc⟩
    next hkind =>
      obtain ⟨⟨items, rest₁, h₁⟩, hitems, h⟩ := ok_of_bind h
      cases h
      obtain ⟨us, c, hts, hc, hus⟩ := derives_of_readItems hitems
      dsimp only at hts
      exact ⟨t :: (us ++ [c]), by simp [hts], .list hkind hus hc⟩
    next hkind =>
      obtain ⟨⟨entries, rest₁, h₁⟩, hentries, h⟩ := ok_of_bind h
      cases h
      obtain ⟨us, c, hts, hc, hus⟩ := derives_of_readEntries hentries
      dsimp only at hts
      exact ⟨t :: (us ++ [c]), by simp [hts], .map hkind hus hc⟩
    next hkind =>
      obtain ⟨⟨e, rest₁, h₁⟩, he, h⟩ := ok_of_bind h
      obtain ⟨⟨rest₂, h₂⟩, hclose, h⟩ := ok_of_bind h
      cases h
      obtain ⟨us, hts, hus⟩ := derives_of_read he
      obtain ⟨c, hrest₁, hc⟩ := kind_of_expect hclose
      dsimp only at hts hrest₁
      exact ⟨t :: (us ++ [c]), by simp [hts, hrest₁], .paren hkind hus hc⟩
    next => cases h
termination_by ts => (ts.length, 1)

lemma derives_of_readArguments {stop : SyntaxError} :
    ∀ {ts : List Token} {args : List Expr} {kwargs : List (String × Expr)} {rest : Rest ts},
      readArguments stop ts = .ok (args, kwargs, rest) →
      ∃ us c, ts = us ++ c :: rest.1 ∧ c.kind = .parenClose ∧ Derives us (.arguments args kwargs)
  | [], _, _, _, h => by
    rw [readArguments] at h
    cases h
  | t :: ts, _, _, _, h => by
    rw [readArguments] at h
    split at h
    next hclose =>
      cases h
      exact ⟨[], t, rfl, hclose, .noArgument⟩
    next =>
      obtain ⟨us, c, hts, hc, hus⟩ := derives_of_readPositional h
      exact ⟨us, c, hts, hc, .arguments hus⟩
termination_by ts => (ts.length, 4)

lemma derives_of_readPositional {stop : SyntaxError} {ts : List Token} {args : List Expr}
    {kwargs : List (String × Expr)} {rest : Rest ts}
    (h : readPositional stop ts = .ok (args, kwargs, rest)) :
    ∃ us c, ts = us ++ c :: rest.1 ∧ c.kind = .parenClose ∧
      Derives us (.someArguments args kwargs) := by
  rw [readPositional] at h
  split at h
  · obtain ⟨⟨kwargs, rest₁, h₁⟩, hkwargs, h⟩ := ok_of_bind h
    cases h
    obtain ⟨us, c, hts, hc, hus⟩ := derives_of_readKeywords hkwargs
    exact ⟨us, c, hts, hc, .keywords hus⟩
  · obtain ⟨⟨e, rest₁, h₁⟩, he, h⟩ := ok_of_bind h
    obtain ⟨⟨more, rest₂, h₂⟩, hsep, h⟩ := ok_of_bind h
    obtain ⟨us, hts, hus⟩ := derives_of_read he
    obtain ⟨c, hrest₁, hc⟩ := kind_of_separator hsep
    dsimp only at hts hrest₁
    cases more with
    | false =>
      cases h
      exact ⟨us, c, by simp [hts, hrest₁], hc, .lastPositional hus⟩
    | true =>
      obtain ⟨⟨args, kwargs, rest₃, h₃⟩, hmore, h⟩ := ok_of_bind h
      cases h
      obtain ⟨vs, d, hrest₂, hd, hvs⟩ := derives_of_readPositional hmore
      dsimp only at hrest₂
      exact ⟨us ++ c :: vs, d, by simp [hts, hrest₁, hrest₂], hd, .positional hus hc hvs⟩
termination_by (ts.length, 3)

lemma derives_of_readKeywords {stop : SyntaxError} {first : String} {ts : List Token}
    {kwargs : List (String × Expr)} {rest : Rest ts}
    (h : readKeywords stop first ts = .ok (kwargs, rest)) :
    ∃ us c, ts = us ++ c :: rest.1 ∧ c.kind = .parenClose ∧ Derives us (.keywords kwargs) := by
  rw [readKeywords.eq_def] at h
  split at h
  · split at h
    · cases h
    · cases h
  next k rest₀ h₀ hkeyword =>
    split at h
    next hplain =>
      obtain ⟨⟨e, rest₁, h₁⟩, he, h⟩ := ok_of_bind h
      obtain ⟨⟨more, rest₂, h₂⟩, hsep, h⟩ := ok_of_bind h
      obtain ⟨a, hts, hk, ha⟩ := kinds_of_keyword? hkeyword
      obtain ⟨us, hrest₀, hus⟩ := derives_of_read he
      obtain ⟨c, hrest₁, hc⟩ := kind_of_separator hsep
      dsimp only at hts hrest₀ hrest₁
      cases more with
      | false =>
        cases h
        exact ⟨k :: a :: us, c, by simp [hts, hrest₀, hrest₁], hc, .lastKeyword hk hplain ha hus⟩
      | true =>
        obtain ⟨⟨kwargs, rest₃, h₃⟩, hmore, h⟩ := ok_of_bind h
        cases h
        obtain ⟨vs, d, hrest₂, hd, hvs⟩ := derives_of_readKeywords hmore
        dsimp only at hrest₂
        exact ⟨k :: a :: (us ++ c :: vs), d, by simp [hts, hrest₀, hrest₁, hrest₂], hd,
          .keyword hk hplain ha hus hc hvs⟩
    next => cases h
termination_by (ts.length, 2)

lemma derives_of_readItems {stop : SyntaxError} :
    ∀ {ts : List Token} {items : List Expr} {rest : Rest ts},
      readItems stop ts = .ok (items, rest) →
      ∃ us c, ts = us ++ c :: rest.1 ∧ c.kind = .bracketClose ∧ Derives us (.items items)
  | [], _, _, h => by
    rw [readItems] at h
    cases h
  | t :: ts, _, _, h => by
    have hlength : (t :: ts).length = ts.length + 1 := rfl
    rw [readItems] at h
    split at h
    next hclose =>
      cases h
      exact ⟨[], t, rfl, hclose, .noItem⟩
    next =>
      obtain ⟨⟨e, rest₁, h₁⟩, he, h⟩ := ok_of_bind h
      obtain ⟨⟨more, rest₂, h₂⟩, hsep, h⟩ := ok_of_bind h
      obtain ⟨us, hts, hus⟩ := derives_of_read he
      obtain ⟨c, hrest₁, hc⟩ := kind_of_separator hsep
      dsimp only at hts hrest₁
      cases more with
      | false =>
        cases h
        exact ⟨us, c, by simp [hts, hrest₁], hc, .lastItem hus⟩
      | true =>
        obtain ⟨⟨items, rest₃, h₃⟩, hmore, h⟩ := ok_of_bind h
        cases h
        obtain ⟨vs, d, hrest₂, hd, hvs⟩ := derives_of_readItems hmore
        dsimp only at hrest₂
        exact ⟨us ++ c :: vs, d, by simp [hts, hrest₁, hrest₂], hd, .item hus hc hvs⟩
termination_by ts => (ts.length, 3)

lemma derives_of_readEntries {stop : SyntaxError} :
    ∀ {ts : List Token} {entries : List (String × Expr)} {rest : Rest ts},
      readEntries stop ts = .ok (entries, rest) →
      ∃ us c, ts = us ++ c :: rest.1 ∧ c.kind = .curlyClose ∧ Derives us (.entries entries)
  | [], _, _, h => by
    rw [readEntries] at h
    cases h
  | t :: ts, _, _, h => by
    have hlength : (t :: ts).length = ts.length + 1 := rfl
    rw [readEntries] at h
    split at h
    next hclose =>
      cases h
      exact ⟨[], t, rfl, hclose, .noEntry⟩
    next =>
      obtain ⟨⟨name, rest₀, h₀⟩, hkey, h⟩ := ok_of_bind h
      obtain ⟨⟨e, rest₁, h₁⟩, he, h⟩ := ok_of_bind h
      obtain ⟨⟨more, rest₂, h₂⟩, hsep, h⟩ := ok_of_bind h
      obtain ⟨k, a, hts, hk, ha⟩ := key_of_key hkey
      obtain ⟨us, hrest₀, hus⟩ := derives_of_read he
      obtain ⟨c, hrest₁, hc⟩ := kind_of_separator hsep
      dsimp only at hts hrest₀ hrest₁
      cases more with
      | false =>
        cases h
        exact ⟨k :: a :: us, c, by simp [hts, hrest₀, hrest₁], hc, .lastEntry hk ha hus⟩
      | true =>
        obtain ⟨⟨entries, rest₃, h₃⟩, hmore, h⟩ := ok_of_bind h
        cases h
        obtain ⟨vs, d, hrest₂, hd, hvs⟩ := derives_of_readEntries hmore
        dsimp only at hrest₂
        exact ⟨k :: a :: (us ++ c :: vs), d, by simp [hts, hrest₀, hrest₁, hrest₂], hd,
          .entry hk ha hus hc hvs⟩
termination_by ts => (ts.length, 3)

end

/-! ### What is derived is read -/

lemma expect_of_kind (stop : SyntaxError) {kind : TokenKind} {t : Token} (rest : List Token)
    (h : t.kind = kind) : ∃ hrest, expect stop kind (t :: rest) = .ok ⟨rest, hrest⟩ := by
  rw [expect, if_pos h]
  exact ⟨by simp, rfl⟩

lemma separator_of_kind (stop : SyntaxError) {close : TokenKind} {t : Token} (rest : List Token)
    {more : Bool} (h : t.kind = if more then .comma else close) (hclose : close ≠ .comma) :
    ∃ hrest, separator stop close (t :: rest) = .ok (more, ⟨rest, hrest⟩) := by
  rw [separator]
  cases more with
  | true =>
    have hkind : t.kind = .comma := h
    rw [if_pos hkind]
    exact ⟨by simp, rfl⟩
  | false =>
    have hkind : t.kind = close := h
    rw [if_neg (hkind ▸ hclose), if_pos hkind]
    exact ⟨by simp, rfl⟩

lemma key_of_kinds (stop : SyntaxError) {k a : Token} {name : String} (rest : List Token)
    (hk : Key k name) (ha : a.kind = .colon) :
    ∃ hrest, key stop (k :: a :: rest) = .ok (name, ⟨rest, hrest⟩) := by
  obtain ⟨h, hexpect⟩ := expect_of_kind stop rest ha
  have hname : (if k.kind = .string then some (String.ofList (Text.unescape k.text.toList))
      else if k.kind = .path ∧ k.isPlain then some k.text else none) = some name := by
    cases hk with
    | string hkind => rw [if_pos hkind]
    | name hkind hplain => rw [if_neg (by simp [hkind]), if_pos ⟨hkind, hplain⟩]
  rw [key]
  simp only [hname]
  rw [bind_eq_of_ok hexpect]
  exact ⟨Nat.lt_succ_of_lt h, rfl⟩

lemma keyword?_of_kinds {k a : Token} (rest : List Token) (hk : k.kind = .path)
    (ha : a.kind = .assignment) :
    ∃ hrest, keyword? (k :: a :: rest) = some (k, ⟨rest, hrest⟩) := by
  rw [keyword?, if_pos ⟨hk, ha⟩]
  exact ⟨by simp only [List.length_cons]; omega, rfl⟩

/-- No index comes next, so that an expression ends here. -/
def Stops (rest : List Token) : Prop :=
  ∀ t ∈ rest.head?, t.kind ≠ .bracketOpen

lemma stops_cons {t : Token} {kind : TokenKind} (rest : List Token) (h : t.kind = kind)
    (hkind : kind ≠ .bracketOpen) : Stops (t :: rest) := by
  intro u hu
  obtain rfl := Option.some.inj hu
  exact h ▸ hkind

/-- What an expression starts with closes nothing. -/
lemma Derives.operand_cons {us : List Token} {e : Expr} (h : Derives us (.operand e)) :
    ∃ t vs, us = t :: vs ∧ t.kind ≠ .parenClose ∧ t.kind ≠ .bracketClose ∧
      t.kind ≠ .curlyClose ∧ (t.kind = .path → vs = []) := by
  cases h with
  | path hkind => exact ⟨_, [], rfl, by simp [hkind]⟩
  | string hkind | number hkind | bool hkind | nothing hkind | emptyCall hkind =>
    exact ⟨_, [], rfl, by simp [hkind]⟩
  | call hkind | list hkind | map hkind | paren hkind =>
    exact ⟨_, _, rfl, by simp [hkind]⟩

lemma Derives.expr_cons {us : List Token} {e : Expr} (h : Derives us (.expr e)) :
    ∃ t vs, us = t :: vs ∧ t.kind ≠ .parenClose ∧ t.kind ≠ .bracketClose ∧
      t.kind ≠ .curlyClose := by
  cases h with
  | expr hoperand _ =>
    obtain ⟨t, vs, rfl, h₁, h₂, h₃, _⟩ := hoperand.operand_cons
    exact ⟨t, _, rfl, h₁, h₂, h₃⟩

lemma Key.ne_curlyClose {k : Token} {name : String} (h : Key k name) : k.kind ≠ .curlyClose := by
  cases h with
  | string hkind | name hkind => simp [hkind]

lemma Derives.keywords_cons {us : List Token} {kwargs : List (String × Expr)}
    (h : Derives us (.keywords kwargs)) :
    ∃ k a vs, us = k :: a :: vs ∧ k.kind = .path ∧ a.kind = .assignment := by
  cases h with
  | lastKeyword hk _ ha | keyword hk _ ha => exact ⟨_, _, _, rfl, hk, ha⟩

lemma Derives.someArguments_cons {us : List Token} {args : List Expr}
    {kwargs : List (String × Expr)} (h : Derives us (.someArguments args kwargs)) :
    ∃ t vs, us = t :: vs ∧ t.kind ≠ .parenClose := by
  cases h with
  | lastPositional he =>
    obtain ⟨t, vs, rfl, hnot, _⟩ := he.expr_cons
    exact ⟨t, vs, rfl, hnot⟩
  | positional he =>
    obtain ⟨t, vs, rfl, hnot, _⟩ := he.expr_cons
    exact ⟨t, _, rfl, hnot⟩
  | keywords hkwargs =>
    obtain ⟨k, a, vs, rfl, hk, _⟩ := hkwargs.keywords_cons
    exact ⟨k, _, rfl, by simp [hk]⟩

/-- An expression is not taken for a keyword argument. -/
lemma Derives.keyword?_eq_none {us : List Token} {e : Expr} (h : Derives us (.expr e)) {c : Token}
    (hc : c.kind ≠ .assignment) (rest : List Token) : keyword? (us ++ c :: rest) = none := by
  cases h with
  | @expr us vs e₀ e hoperand hindexes =>
    obtain ⟨t, ts, rfl, _, _, _, hpath⟩ := hoperand.operand_cons
    have hnot {a : Token} {as : List Token} (h : t.kind ≠ .path ∨ a.kind ≠ .assignment) :
        keyword? (t :: a :: as) = none := by
      rw [keyword?, if_neg (by tauto)]
    by_cases hkind : t.kind = .path
    · obtain rfl := hpath hkind
      cases hindexes with
      | noIndex => exact hnot (.inr hc)
      | index hopen => exact hnot (.inr (by simp [hopen]))
    · cases hts : ts ++ vs ++ c :: rest with
      | nil => simp at hts
      | cons a as =>
        rw [List.cons_append, List.cons_append, hts]
        exact hnot (.inl hkind)

/-- The reader of the phrase takes the tokens from the front, whatever comes behind. -/
def Phrase.Taken (stop : SyntaxError) (us : List Token) : Phrase → Prop
  | .expr e => ∀ rest, Stops rest → ∃ h, read stop (us ++ rest) = .ok (e, ⟨rest, h⟩)
  | .operand e => ∀ rest, ∃ h, readOperand stop (us ++ rest) = .ok (e, ⟨rest, h⟩)
  | .indexes target e => ∀ rest, Stops rest →
      ∃ h, readIndexes stop target (us ++ rest) = .ok (e, ⟨rest, h⟩)
  | .items es => ∀ c rest, c.kind = .bracketClose →
      ∃ h, readItems stop (us ++ c :: rest) = .ok (es, ⟨rest, h⟩)
  | .entries es => ∀ c rest, c.kind = .curlyClose →
      ∃ h, readEntries stop (us ++ c :: rest) = .ok (es, ⟨rest, h⟩)
  | .arguments args kwargs => ∀ c rest, c.kind = .parenClose →
      ∃ h, readArguments stop (us ++ c :: rest) = .ok (args, kwargs, ⟨rest, h⟩)
  | .someArguments args kwargs => ∀ c rest, c.kind = .parenClose →
      ∃ h, readPositional stop (us ++ c :: rest) = .ok (args, kwargs, ⟨rest, h⟩)
  | .keywords kwargs => ∀ first c rest, c.kind = .parenClose →
      ∃ h, readKeywords stop first (us ++ c :: rest) = .ok (kwargs, ⟨rest, h⟩)

/-- An expression is taken together with the comma or the closing bracket behind it. -/
lemma Phrase.Taken.separated {stop : SyntaxError} {us : List Token} {e : Expr}
    (h : Phrase.Taken stop us (.expr e)) (close : TokenKind) {c : Token} (more : Bool)
    (rest : List Token) (hc : c.kind = if more then .comma else close)
    (hclose : close ≠ .comma ∧ close ≠ .bracketOpen) :
    ∃ h₁ h₂, read stop (us ++ c :: rest) = .ok (e, ⟨c :: rest, h₁⟩) ∧
      separator stop close (c :: rest) = .ok (more, ⟨rest, h₂⟩) := by
  obtain ⟨h₁, hread⟩ := h (c :: rest) (stops_cons _ hc (by cases more <;> simp [hclose.2]))
  obtain ⟨h₂, hsep⟩ := separator_of_kind stop rest hc hclose.1
  exact ⟨h₁, h₂, hread, hsep⟩

/-- What the grammar derives is read. -/
lemma Derives.taken {us : List Token} {φ : Phrase} (h : Derives us φ) (stop : SyntaxError) :
    φ.Taken stop us := by
  induction h with
  | @expr us vs e₀ e hoperand hindexes ihoperand ihindexes =>
    intro rest hrest
    obtain ⟨h₁, hoperand⟩ := ihoperand (vs ++ rest)
    obtain ⟨h₂, hindexes⟩ := ihindexes rest hrest
    rw [List.append_assoc, read, bind_eq_of_ok hoperand]
    dsimp only
    rw [bind_eq_of_ok hindexes]
    exact ⟨Nat.lt_of_le_of_lt h₂ h₁, rfl⟩
  | noIndex e =>
    intro rest hrest
    cases rest with
    | nil =>
      rw [List.nil_append, readIndexes]
      exact ⟨by simp, rfl⟩
    | cons t rest =>
      rw [List.nil_append, readIndexes, if_neg (hrest t rfl)]
      exact ⟨by simp, rfl⟩
  | @index o c us vs target place e hopen hplace hclose hmore ihplace ihmore =>
    intro rest hrest
    obtain ⟨h₁, hplace⟩ := ihplace (c :: (vs ++ rest)) (stops_cons _ hclose (by decide))
    obtain ⟨h₂, hexpect⟩ := expect_of_kind stop (vs ++ rest) hclose
    obtain ⟨h₃, hmore⟩ := ihmore rest hrest
    rw [List.cons_append, List.append_assoc, List.cons_append, readIndexes, if_pos hopen,
      bind_eq_of_ok hplace]
    dsimp only
    rw [bind_eq_of_ok hexpect]
    dsimp only
    rw [bind_eq_of_ok hmore]
    exact ⟨by simp only [List.length_cons] at *; omega, rfl⟩
  | string hkind | bool hkind | nothing hkind =>
    intro rest
    rw [List.singleton_append, readOperand]
    simp only [hkind]
    exact ⟨by simp, trivial⟩
  | number hkind hn =>
    intro rest
    rw [List.singleton_append, readOperand]
    simp only [hkind, hn]
    exact ⟨by simp, trivial⟩
  | path hkind hnames | emptyCall hkind hnames =>
    intro rest
    rw [List.singleton_append, readOperand, hnames.eq_ofPath]
    simp only [hkind]
    exact ⟨by simp, trivial⟩
  | @call o c us callee args kwargs hkind hnames hargs hclose ihargs =>
    intro rest
    obtain ⟨h, hread⟩ := ihargs c rest hclose
    rw [List.cons_append, List.append_assoc, List.singleton_append, readOperand,
      hnames.eq_ofPath]
    simp only [hkind]
    rw [bind_eq_of_ok hread]
    exact ⟨Nat.lt_succ_of_lt h, rfl⟩
  | @list o c us es hkind hitems hclose ihitems =>
    intro rest
    obtain ⟨h, hread⟩ := ihitems c rest hclose
    rw [List.cons_append, List.append_assoc, List.singleton_append, readOperand]
    simp only [hkind]
    rw [bind_eq_of_ok hread]
    exact ⟨Nat.lt_succ_of_lt h, rfl⟩
  | @map o c us es hkind hentries hclose ihentries =>
    intro rest
    obtain ⟨h, hread⟩ := ihentries c rest hclose
    rw [List.cons_append, List.append_assoc, List.singleton_append, readOperand]
    simp only [hkind]
    rw [bind_eq_of_ok hread]
    exact ⟨Nat.lt_succ_of_lt h, rfl⟩
  | @paren o c us e hkind he hclose ihe =>
    intro rest
    obtain ⟨h₁, hread⟩ := ihe (c :: rest) (stops_cons _ hclose (by decide))
    obtain ⟨h₂, hexpect⟩ := expect_of_kind stop rest hclose
    rw [List.cons_append, List.append_assoc, List.singleton_append, readOperand]
    simp only [hkind]
    rw [bind_eq_of_ok hread]
    dsimp only
    rw [bind_eq_of_ok hexpect]
    exact ⟨Nat.lt_succ_of_lt (Nat.lt_trans h₂ h₁), rfl⟩
  | noItem =>
    intro c rest hclose
    rw [List.nil_append, readItems, if_pos hclose]
    exact ⟨by simp, rfl⟩
  | @lastItem us e he ihe =>
    intro c rest hclose
    obtain ⟨t, ts, rfl, _, hnot, _⟩ := he.expr_cons
    obtain ⟨h₁, h₂, (hread : read stop (t :: (ts ++ c :: rest)) = _), hsep⟩ :=
      ihe.separated .bracketClose false rest hclose (by decide)
    rw [List.cons_append, readItems, if_neg hnot, bind_eq_of_ok hread]
    dsimp only
    rw [bind_eq_of_ok hsep]
    exact ⟨Nat.lt_trans h₂ h₁, rfl⟩
  | @item d us vs e es he hcomma hmore ihe ihmore =>
    intro c rest hclose
    obtain ⟨t, ts, rfl, _, hnot, _⟩ := he.expr_cons
    obtain ⟨h₁, h₂, (hread : read stop (t :: (ts ++ d :: (vs ++ c :: rest))) = _), hsep⟩ :=
      ihe.separated .bracketClose true (vs ++ c :: rest) hcomma (by decide)
    obtain ⟨h₃, hmore⟩ := ihmore c rest hclose
    rw [List.append_assoc, List.cons_append, List.cons_append, readItems, if_neg hnot,
      bind_eq_of_ok hread]
    dsimp only
    rw [bind_eq_of_ok hsep]
    dsimp only
    rw [bind_eq_of_ok hmore]
    exact ⟨Nat.lt_trans h₃ (Nat.lt_trans h₂ h₁), rfl⟩
  | noEntry =>
    intro c rest hclose
    rw [List.nil_append, readEntries, if_pos hclose]
    exact ⟨by simp, rfl⟩
  | @lastEntry k a us name e hk ha he ihe =>
    intro c rest hclose
    obtain ⟨h₀, hkey⟩ := key_of_kinds stop (us ++ c :: rest) hk ha
    obtain ⟨h₁, h₂, hread, hsep⟩ := ihe.separated .curlyClose false rest hclose (by decide)
    rw [List.cons_append, List.cons_append, readEntries, if_neg hk.ne_curlyClose,
      bind_eq_of_ok hkey]
    dsimp only
    rw [bind_eq_of_ok hread]
    dsimp only
    rw [bind_eq_of_ok hsep]
    exact ⟨Nat.lt_trans h₂ (Nat.lt_trans h₁ h₀), rfl⟩
  | @entry k a d us vs name e es hk ha he hcomma hmore ihe ihmore =>
    intro c rest hclose
    obtain ⟨h₀, hkey⟩ := key_of_kinds stop (us ++ d :: (vs ++ c :: rest)) hk ha
    obtain ⟨h₁, h₂, hread, hsep⟩ :=
      ihe.separated .curlyClose true (vs ++ c :: rest) hcomma (by decide)
    obtain ⟨h₃, hmore⟩ := ihmore c rest hclose
    rw [List.cons_append, List.cons_append, List.append_assoc, List.cons_append, readEntries,
      if_neg hk.ne_curlyClose, bind_eq_of_ok hkey]
    dsimp only
    rw [bind_eq_of_ok hread]
    dsimp only
    rw [bind_eq_of_ok hsep]
    dsimp only
    rw [bind_eq_of_ok hmore]
    exact ⟨Nat.lt_trans h₃ (Nat.lt_trans h₂ (Nat.lt_trans h₁ h₀)), rfl⟩
  | noArgument =>
    intro c rest hclose
    rw [List.nil_append, readArguments, if_pos hclose]
    exact ⟨by simp, rfl⟩
  | @arguments us args kwargs hsome ihsome =>
    intro c rest hclose
    obtain ⟨t, ts, rfl, hnot⟩ := hsome.someArguments_cons
    obtain ⟨h, hread⟩ := ihsome c rest hclose
    rw [List.cons_append, readArguments, if_neg hnot]
    exact ⟨h, hread⟩
  | @lastPositional us e he ihe =>
    intro c rest hclose
    obtain ⟨h₁, h₂, hread, hsep⟩ := ihe.separated .parenClose false rest hclose (by decide)
    rw [readPositional, he.keyword?_eq_none (by simp [hclose])]
    dsimp only
    rw [bind_eq_of_ok hread]
    dsimp only
    rw [bind_eq_of_ok hsep]
    exact ⟨Nat.lt_trans h₂ h₁, rfl⟩
  | @positional d us vs e args kwargs he hcomma hmore ihe ihmore =>
    intro c rest hclose
    obtain ⟨h₁, h₂, hread, hsep⟩ :=
      ihe.separated .parenClose true (vs ++ c :: rest) hcomma (by decide)
    obtain ⟨h₃, hmore⟩ := ihmore c rest hclose
    rw [List.append_assoc, List.cons_append, readPositional,
      he.keyword?_eq_none (by simp [hcomma])]
    dsimp only
    rw [bind_eq_of_ok hread]
    dsimp only
    rw [bind_eq_of_ok hsep]
    dsimp only
    rw [bind_eq_of_ok hmore]
    exact ⟨Nat.lt_trans h₃ (Nat.lt_trans h₂ h₁), rfl⟩
  | @keywords us kwargs hkwargs ihkwargs =>
    intro c rest hclose
    obtain ⟨k, a, ts, rfl, hk, ha⟩ := hkwargs.keywords_cons
    obtain ⟨h₀, hkeyword⟩ := keyword?_of_kinds (ts ++ c :: rest) hk ha
    obtain ⟨h₁, (hread : readKeywords stop k.text (k :: a :: (ts ++ c :: rest)) = _)⟩ :=
      ihkwargs k.text c rest hclose
    rw [List.cons_append, List.cons_append, readPositional, hkeyword]
    dsimp only
    rw [bind_eq_of_ok hread]
    exact ⟨h₁, rfl⟩
  | @lastKeyword k a us e hk hplain ha he ihe =>
    intro first c rest hclose
    obtain ⟨h₀, hkeyword⟩ := keyword?_of_kinds (us ++ c :: rest) hk ha
    obtain ⟨h₁, h₂, hread, hsep⟩ := ihe.separated .parenClose false rest hclose (by decide)
    rw [List.cons_append, List.cons_append, readKeywords.eq_def, hkeyword]
    dsimp only
    rw [if_pos hplain, bind_eq_of_ok hread]
    dsimp only
    rw [bind_eq_of_ok hsep]
    exact ⟨Nat.lt_trans h₂ (Nat.lt_trans h₁ h₀), rfl⟩
  | @keyword k a d us vs e kwargs hk hplain ha he hcomma hmore ihe ihmore =>
    intro first c rest hclose
    obtain ⟨h₀, hkeyword⟩ := keyword?_of_kinds (us ++ d :: (vs ++ c :: rest)) hk ha
    obtain ⟨h₁, h₂, hread, hsep⟩ :=
      ihe.separated .parenClose true (vs ++ c :: rest) hcomma (by decide)
    obtain ⟨h₃, hmore⟩ := ihmore first c rest hclose
    rw [List.cons_append, List.cons_append, List.append_assoc, List.cons_append,
      readKeywords.eq_def, hkeyword]
    dsimp only
    rw [if_pos hplain, bind_eq_of_ok hread]
    dsimp only
    rw [bind_eq_of_ok hsep]
    dsimp only
    rw [bind_eq_of_ok hmore]
    exact ⟨Nat.lt_trans h₃ (Nat.lt_trans h₂ (Nat.lt_trans h₁ h₀)), rfl⟩

/-- What the grammar derives is read to its end. -/
lemma Derives.read_eq {us : List Token} {e : Expr} (h : Derives us (.expr e))
    (stop : SyntaxError) : ∃ hrest, read stop us = .ok (e, ⟨[], hrest⟩) := by
  have hread := h.taken stop [] nofun
  rwa [List.append_nil] at hread

lemma Derives.ofTokens_eq {ts : List Token} {e : Expr}
    (h : Derives (Token.significant ts) (.expr e)) : ofTokens ts = .ok e := by
  obtain ⟨_, hread⟩ := h.read_eq (endError (Token.significant ts))
  rw [ofTokens, bind_eq_of_ok hread]
  rfl

lemma derives_of_ofTokens {ts : List Token} {e : Expr} (h : ofTokens ts = .ok e) :
    Derives (Token.significant ts) (.expr e) := by
  obtain ⟨⟨e, rest, hrest⟩, hread, h⟩ := ok_of_bind h
  obtain ⟨us, hts, hus⟩ := derives_of_read hread
  cases rest with
  | nil =>
    cases h
    rwa [hts, List.append_nil]
  | cons t rest => cases h

/-- The tokens of an expression are those of no other expression. -/
lemma Derives.unique {us : List Token} {e e' : Expr} (h : Derives us (.expr e))
    (h' : Derives us (.expr e')) : e = e' := by
  obtain ⟨_, hread⟩ := h.read_eq (endError us)
  obtain ⟨_, hread'⟩ := h'.read_eq (endError us)
  cases hread.symm.trans hread'
  rfl

end Expr

/-- **The expression parser accepts exactly its grammar.** Tokens are read as an expression if,
white space aside, the grammar derives them for it, and only then. They are derived for one
expression at most, and names joined by dots are nested to the left. -/
theorem expressions_exact (ts : List Token) :
    (∀ e, Expr.ofTokens ts = .ok e ↔ Expr.Derives (Token.significant ts) (.expr e)) ∧
    (∀ e e', Expr.Derives (Token.significant ts) (.expr e) →
      Expr.Derives (Token.significant ts) (.expr e') → e = e') ∧
    ∀ text e, Expr.Named text e ↔ ∃ root members, text = ".".intercalate (root :: members) ∧
      (∀ name ∈ root :: members, '.' ∉ name.toList) ∧ e = members.foldl .member (.var root) :=
  ⟨fun _ => ⟨Expr.derives_of_ofTokens, Expr.Derives.ofTokens_eq⟩,
    fun _ _ h h' => h.unique h', fun _ _ => Expr.named_iff⟩

end Stencil
