import Stencil.Render
import Mathlib.Data.List.Forall2
import Mathlib.Data.Option.Defs
import Mathlib.Tactic.Lemma

/-!
Values that behave alike. A relation of values is a **likeness** (`Value.Likeness`) if related
values look alike from outside (`Value.Shape`) and data built alike from related values are related.
Then related values have the same text, and what one finds in them is related again, so that an
expression cannot tell them apart, whatever is said of the code in them.

Given which code corresponds to which (`CodeRel`), `Value.Rel` relates values that are built alike
from corresponding code: data are related to themselves, and macros, contents of call blocks and
namespaces to those with corresponding code and with related values inside. Which code corresponds
may depend on the parameters that it is closed over. Identities do not count.

`Dict.Rel` relates maps: the same names, with related values.
-/

namespace Stencil

/-! ### Maps -/

namespace Dict

variable {α : Type}

/-- Entries for one name, with related values. -/
inductive EntryRel (V : α → α → Prop) : String × α → String × α → Prop
  | mk (k : String) {v w : α} : V v w → EntryRel V (k, v) (k, w)

/-- Entries for the same names, with related values. -/
inductive Entries.Rel (V : α → α → Prop) :
    {bound : Option String} → Entries α bound → Entries α bound → Prop
  | nil {bound : Option String} : Rel V (.nil : Entries α bound) .nil
  | cons {bound : Option String} (k : String) (above : Above bound k) {v w : α}
      {rest rest' : Entries α (some k)} : V v w → Rel V rest rest' →
      Rel V (.cons k above v rest) (.cons k above w rest')

/-- Maps with the same names and related values. -/
inductive Rel (V : α → α → Prop) : Dict α → Dict α → Prop
  | mk {es es' : Entries α none} : Entries.Rel V es es' → Rel V ⟨es⟩ ⟨es'⟩

variable {V W : α → α → Prop} {l l' : List (String × α)} {d d' : Dict α} {k : String} {v w : α}
  {bound : Option String} {es es' : Entries α bound}

lemma rel_empty : Rel V empty empty := .mk .nil

lemma Entries.Rel.mono (h : Entries.Rel V es es') (hVW : ∀ {v w}, V v w → W v w) :
    Entries.Rel W es es' := by
  induction h with
  | nil => exact .nil
  | cons k above hv _ ih => exact .cons k above (hVW hv) ih

lemma Rel.mono (h : Rel V d d') (hVW : ∀ {v w}, V v w → W v w) : Rel W d d' := by
  obtain ⟨h⟩ := h
  exact .mk (h.mono hVW)

/-- Related entries are related one by one. -/
lemma Entries.Rel.toList (h : Entries.Rel V es es') :
    List.Forall₂ (EntryRel V) es.toList es'.toList := by
  induction h with
  | nil => exact .nil
  | cons k above hv _ ih => exact .cons (.mk k hv) ih

/-- What is found in related entries is related. -/
lemma rel_find? (h : List.Forall₂ (EntryRel V) l l') (k : String) :
    Option.Rel V (find? l k) (find? l' k) := by
  induction h with
  | nil => exact .none
  | cons he _ ih =>
    obtain ⟨x, hv⟩ := he
    rw [find?, find?]
    split
    · exact .some hv
    · exact ih

/-- What related maps have at a name is related. -/
lemma Rel.get? (h : Rel V d d') (k : String) : Option.Rel V (d.get? k) (d'.get? k) := by
  obtain ⟨h⟩ := h
  exact rel_find? h.toList k

/-- Related values are put in the same place among related entries. -/
lemma Entries.Rel.place (h : Entries.Rel V es es') (hv : V v w) (above : Above bound k) :
    Entries.Rel V (es.place k v above) (es'.place k w above) := by
  induction h with
  | nil => exact .cons k above hv .nil
  | cons x above' hx hrest ih =>
    rw [Entries.place, Entries.place]
    split
    · exact .cons k above hv (.cons x _ hx hrest)
    · split
      · exact .cons x above' hv hrest
      · exact .cons x above' hx (ih _)

/-- Inserting related values into related maps gives related maps. -/
lemma Rel.insert (h : Rel V d d') (k : String) (hv : V v w) :
    Rel V (d.insert k v) (d'.insert k w) := by
  obtain ⟨h⟩ := h
  exact .mk (h.place hv (.none k))

lemma rel_foldl_insert (h : List.Forall₂ (EntryRel V) l l') (hd : Rel V d d') :
    Rel V (l.foldl (fun acc p => acc.insert p.1 p.2) d)
      (l'.foldl (fun acc p => acc.insert p.1 p.2) d') := by
  induction h generalizing d d' with
  | nil => exact hd
  | cons he _ ih =>
    obtain ⟨x, hv⟩ := he
    exact ih (hd.insert x hv)

/-- The maps of related lists of entries are related. -/
lemma rel_ofList (h : List.Forall₂ (EntryRel V) l l') : Rel V (ofList l) (ofList l') :=
  rel_foldl_insert h rel_empty

end Dict

/-! ### Values that look alike -/

/-- What can be seen of two values from outside, where what is inside is related by `V`. -/
inductive Value.Shape (V : Value → Value → Prop) : Value → Value → Prop
  | undefined : Shape V .undefined .undefined
  | nothing : Shape V .nothing .nothing
  | bool (b : Bool) : Shape V (.bool b) (.bool b)
  | number (n : Number) : Shape V (.number n) (.number n)
  | string (s : String) : Shape V (.string s) (.string s)
  | list {vs ws : List Value} : List.Forall₂ V vs ws → Shape V (.list vs) (.list ws)
  | map {d d' : Dict Value} : Dict.Rel V d d' → Shape V (.map d) (.map d')
  | closure (i i' : Nat) (m m' : Macro) (s s' : Scope) :
      Shape V (.closure i m s) (.closure i' m' s')
  | block (i i' : Nat) (b b' : List Instr) (o o' : Option Value) (s s' : Scope) :
      Shape V (.block i b o s) (.block i' b' o' s')
  | space {d d' : Dict Value} (x x' : Option (List Instr × Scope)) : Dict.Rel V d d' →
      Shape V (.space d x) (.space d' x')

/-- Related values look alike, data that are built alike from related values are related, and
namespaces stay related whatever related members they have. -/
class Value.Likeness (V : Value → Value → Prop) : Prop where
  shape : ∀ {v w}, V v w → Shape V v w
  undefined : V .undefined .undefined
  nothing : V .nothing .nothing
  bool : ∀ b, V (.bool b) (.bool b)
  number : ∀ n, V (.number n) (.number n)
  string : ∀ s, V (.string s) (.string s)
  list : ∀ {vs ws}, List.Forall₂ V vs ws → V (.list vs) (.list ws)
  map : ∀ {d d'}, Dict.Rel V d d' → V (.map d) (.map d')
  space : ∀ {d d'}, Dict.Rel V d d' → V (.space d none) (.space d' none)
  members : ∀ {d d' e e' x x'}, V (.space d x) (.space d' x') → Dict.Rel V e e' →
    V (.space e x) (.space e' x')

namespace Value.Likeness

variable {V : Value → Value → Prop} [Value.Likeness V] {v w : Value}

/-- An absent value counts as an undefined one. -/
lemma getD {o o' : Option Value} (h : Option.Rel V o o') :
    V (o.getD .undefined) (o'.getD .undefined) := by
  cases h with
  | some h => exact h
  | none => exact undefined

omit [Value.Likeness V] in
/-- Of two alternatives the first that is there is taken on both sides. -/
lemma or {o o' p p' : Option Value} (h : Option.Rel V o o') (h' : Option.Rel V p p') :
    Option.Rel V (o.or p) (o'.or p') := by
  cases h with
  | some h => exact .some h
  | none => exact h'

lemma isUndefined_eq (h : V v w) : v.isUndefined = w.isUndefined := by
  cases shape h <;> rfl

/-- Constants are related to themselves. -/
lemma literal (l : Literal) : V l.value l.value := by
  cases l
  · exact nothing
  · exact bool _
  · exact number _
  · exact string _

/-- Members of one name are related. -/
lemma member (h : V v w) (name : String) : V (v.member name) (w.member name) := by
  cases shape h with
  | list hl =>
    rw [Value.member, Value.member, hl.length_eq]
    split
    · exact number _
    · exact undefined
  | string s =>
    rw [Value.member]
    split
    · exact number _
    · exact undefined
  | map hd => exact getD (hd.get? name)
  | space _ _ hd => exact getD (hd.get? name)
  | _ => exact undefined

omit [Value.Likeness V] in
lemma getElem? {vs ws : List Value} (h : List.Forall₂ V vs ws) (i : Nat) :
    Option.Rel V vs[i]? ws[i]? := by
  induction h generalizing i with
  | nil => exact .none
  | cons hv _ ih =>
    cases i with
    | zero => exact .some hv
    | succ i => exact ih i

/-- What stands at related places is related. -/
lemma index {p q : Value} (h : V v w) (hp : V p q) : V (v.index p) (w.index q) := by
  cases shape hp with
  | number n =>
    cases shape h with
    | list hl =>
      rw [Value.index, Value.index]
      cases n.toNat? with
      | none => exact undefined
      | some i => exact getD (getElem? hl i)
    | _ => exact undefined
  | string s =>
    have hm := member h s
    cases shape h <;> exact hm
  | _ => cases shape h <;> exact undefined

omit [Value.Likeness V] in
mutual

/-- Related values have the same JSON form. -/
lemma toJson_eq [Value.Likeness V] : ∀ {v w : Value}, V v w → v.toJson = w.toJson
  | .list vs, w, h => by
    cases shape h with
    | list hl => rw [toJson, toJson, itemsToJson_eq hl]
  | .map ⟨es⟩, w, h => by
    cases shape h with
    | map hd =>
      obtain ⟨hes⟩ := hd
      rw [toJson, toJson, entriesToJson_eq hes]
  | .undefined, _, h | .nothing, _, h | .bool _, _, h | .number _, _, h | .string _, _, h
  | .closure .., _, h | .block .., _, h | .space .., _, h => by
    cases shape h
    rfl

lemma itemsToJson_eq [Value.Likeness V] : ∀ {vs ws : List Value}, List.Forall₂ V vs ws →
    itemsToJson vs = itemsToJson ws
  | [], _, .nil => rfl
  | _ :: _, _, .cons h hs => by rw [itemsToJson, itemsToJson, toJson_eq h, itemsToJson_eq hs]

lemma entriesToJson_eq [Value.Likeness V] {bound : Option String} :
    ∀ {es es' : Dict.Entries Value bound}, Dict.Entries.Rel V es es' →
      entriesToJson es = entriesToJson es'
  | .nil, _, .nil => rfl
  | .cons .., _, .cons _ _ h hs => by
    rw [entriesToJson, entriesToJson, toJson_eq h, entriesToJson_eq hs]

end

omit [Value.Likeness V] in
mutual

/-- Related values have the same text. -/
lemma text_eq [Value.Likeness V] : ∀ {v w : Value}, V v w → v.text = w.text
  | .list vs, w, h => by
    cases shape h with
    | list hl => rw [text, text, texts_eq hl]
  | .map d, w, h => by
    have hjson := toJson_eq h
    cases shape h with
    | map _ => rw [text, text, hjson]
  | .undefined, _, h | .nothing, _, h | .bool _, _, h | .number _, _, h | .string _, _, h
  | .closure .., _, h | .block .., _, h | .space .., _, h => by
    cases shape h
    rfl

lemma texts_eq [Value.Likeness V] :
    ∀ {vs ws : List Value}, List.Forall₂ V vs ws → texts vs = texts ws
  | [], _, .nil => rfl
  | _ :: _, _, .cons h hs => by rw [texts, texts, text_eq h, texts_eq hs]

end

omit [Value.Likeness V] in
mutual

/-- Data are related to themselves. -/
lemma ofJson [Value.Likeness V] : ∀ j : Json, V (Value.ofJson j) (Value.ofJson j)
  | .null => nothing
  | .bool b => bool b
  | .integer _ => number _
  | .float x => number x
  | .string s => string s
  | .array items => list (itemsOfJson items)
  | .object ⟨members⟩ => map (.mk (entriesOfJson members))

lemma itemsOfJson [Value.Likeness V] : ∀ js : List Json,
    List.Forall₂ V (Value.itemsOfJson js) (Value.itemsOfJson js)
  | [] => .nil
  | j :: rest => .cons (ofJson j) (itemsOfJson rest)

lemma entriesOfJson [Value.Likeness V] {bound : Option String} :
    ∀ es : Dict.Entries Json bound,
      Dict.Entries.Rel V (Value.entriesOfJson es) (Value.entriesOfJson es)
  | .nil => .nil
  | .cons k above j rest => .cons k above (ofJson j) (entriesOfJson rest)

end

end Value.Likeness

/-- The namespace that a value stands for, made from a map if it is one. -/
def Value.asSpace : Option Value → Dict Value × Option (List Instr × Scope)
  | some (.space members markup) => (members, markup)
  | some (.map members) => (members, none)
  | _ => (.empty, none)

lemma Context.space_eq (c : Context) (handle : String) :
    c.space handle = Value.asSpace (c.get? handle) := by
  rw [space]
  rcases c.get? handle with _ | v
  · rfl
  · cases v <;> rfl

section Context

variable {V : Value → Value → Prop} [Value.Likeness V]

/-- The entries of data are related to themselves. -/
lemma Context.rel_ofJson {data : Json} {context : Context}
    (h : Context.ofJson data = .ok context) (k : String) :
    Option.Rel V (context.get? k) (context.get? k) := by
  have hdata : V (Value.ofJson data) (Value.ofJson data) := Value.Likeness.ofJson data
  rw [ofJson] at h
  split at h
  next entries hmap =>
    cases h
    rw [hmap] at hdata
    cases Value.Likeness.shape hdata with
    | map hentries => exact hentries.get? k
  next => cases h

/-- The namespaces that related values stand for have related members and the same markup. -/
lemma Value.asSpace_rel {o o' : Option Value} (h : Option.Rel V o o') :
    Dict.Rel V (asSpace o).1 (asSpace o').1 ∧ ∀ {members members'}, Dict.Rel V members members' →
      V (.space members (asSpace o).2) (.space members' (asSpace o').2) := by
  cases h with
  | none => exact ⟨Dict.rel_empty, Value.Likeness.space⟩
  | some hv =>
    cases Value.Likeness.shape hv with
    | space _ _ hd => exact ⟨hd, Value.Likeness.members hv⟩
    | map hd => exact ⟨hd, Value.Likeness.space⟩
    | _ => exact ⟨Dict.rel_empty, Value.Likeness.space⟩

/-- So do the namespaces of related entries. -/
lemma Context.space_rel {c c' : Context} {handle handle' : String}
    (h : Option.Rel V (c.get? handle) (c'.get? handle')) :
    Dict.Rel V (c.space handle).1 (c'.space handle').1 ∧
      ∀ {members members'}, Dict.Rel V members members' →
        V (.space members (c.space handle).2) (.space members' (c'.space handle').2) := by
  rw [space_eq, space_eq]
  exact Value.asSpace_rel h

end Context

/-! ### Values with corresponding code -/

/-- Which macros correspond, which contents of call blocks, and which markup of namespaces, given
the parameters in scope on the first side. -/
structure CodeRel where
  macros : Scope → Macro → Macro → Prop
  contents : Scope → List Instr → List Instr → Prop
  markups : Scope → List Instr → List Instr → Prop

/-- Values built alike from corresponding code. -/
inductive Value.Rel (R : CodeRel) : Value → Value → Prop
  | undefined : Rel R .undefined .undefined
  | nothing : Rel R .nothing .nothing
  | bool (b : Bool) : Rel R (.bool b) (.bool b)
  | number (n : Number) : Rel R (.number n) (.number n)
  | string (s : String) : Rel R (.string s) (.string s)
  | list {vs ws : List Value} : List.Forall₂ (Rel R) vs ws → Rel R (.list vs) (.list ws)
  | map {d d' : Dict Value} : Dict.Rel (Rel R) d d' → Rel R (.map d) (.map d')
  | closure (i i' : Nat) {m m' : Macro} {s s' : Scope} : R.macros s m m' →
      List.Forall₂ (Dict.Rel (Rel R)) s s' → Rel R (.closure i m s) (.closure i' m' s')
  | block (i i' : Nat) {b b' : List Instr} {o o' : Option Value} {s s' : Scope} :
      R.contents s b b' → Option.Rel (Rel R) o o' → List.Forall₂ (Dict.Rel (Rel R)) s s' →
      Rel R (.block i b o s) (.block i' b' o' s')
  | space {d d' : Dict Value} : Dict.Rel (Rel R) d d' → Rel R (.space d none) (.space d' none)
  | shown {d d' : Dict Value} {b b' : List Instr} {s s' : Scope} : Dict.Rel (Rel R) d d' →
      R.markups s b b' → List.Forall₂ (Dict.Rel (Rel R)) s s' →
      Rel R (.space d (some (b, s))) (.space d' (some (b', s')))

/-- Scopes with the same parameters, which have related values. -/
abbrev Scope.Rel (R : CodeRel) : Scope → Scope → Prop :=
  List.Forall₂ (Dict.Rel (Value.Rel R))

variable {R : CodeRel} {v w : Value}

/-- The innermost parameter of a name has related values in related scopes. -/
lemma Scope.Rel.get? {s s' : Scope} (h : Scope.Rel R s s') (name : String) :
    Option.Rel (Value.Rel R) (s.get? name) (s'.get? name) := by
  induction h with
  | nil => exact .none
  | @cons d d' s s' hd _ ih =>
    have hget := hd.get? name
    rw [Scope.get?, Scope.get?] at ih ⊢
    rw [List.findSome?_cons, List.findSome?_cons]
    cases hd₁ : d.get? name <;> cases hd₂ : d'.get? name <;> rw [hd₁, hd₂] at hget
    · exact ih
    · cases hget
    · cases hget
    · exact hget

namespace Value.Rel

instance likeness : Value.Likeness (Value.Rel R) where
  shape h := by
    cases h with
    | undefined => exact .undefined
    | nothing => exact .nothing
    | bool b => exact .bool b
    | number n => exact .number n
    | string s => exact .string s
    | list h => exact .list h
    | map h => exact .map h
    | closure i i' _ _ => exact .closure i i' _ _ _ _
    | block i i' _ _ _ => exact .block i i' _ _ _ _ _ _
    | space h => exact .space _ _ h
    | shown h _ _ => exact .space _ _ h
  undefined := .undefined
  nothing := .nothing
  bool := .bool
  number := .number
  string := .string
  list := .list
  map := .map
  space := .space
  members h he := by
    cases h with
    | space _ => exact .space he
    | shown _ hb hs => exact .shown he hb hs

/-- An absent value counts as an undefined one. -/
lemma getD {o o' : Option Value} (h : Option.Rel (Value.Rel R) o o') :
    Value.Rel R (o.getD .undefined) (o'.getD .undefined) :=
  Likeness.getD h

/-- Of two alternatives the first that is there is taken on both sides. -/
lemma or {o o' p p' : Option Value} (h : Option.Rel (Value.Rel R) o o')
    (h' : Option.Rel (Value.Rel R) p p') : Option.Rel (Value.Rel R) (o.or p) (o'.or p') :=
  Likeness.or h h'

lemma isUndefined_eq (h : Value.Rel R v w) : v.isUndefined = w.isUndefined :=
  Likeness.isUndefined_eq h

/-- Constants are related to themselves. -/
lemma literal (l : Literal) : Value.Rel R l.value l.value :=
  Likeness.literal l

/-- Members of one name are related. -/
lemma member (h : Value.Rel R v w) (name : String) : Value.Rel R (v.member name) (w.member name) :=
  Likeness.member h name

/-- What stands at related places is related. -/
lemma index {p q : Value} (h : Value.Rel R v w) (hp : Value.Rel R p q) :
    Value.Rel R (v.index p) (w.index q) :=
  Likeness.index h hp

/-- Related values have the same text. -/
lemma text_eq (h : Value.Rel R v w) : v.text = w.text :=
  Likeness.text_eq h

end Value.Rel

section Mono

/-- Whatever corresponds on the first relation does so on the second. -/
structure CodeRel.Le (R R' : CodeRel) : Prop where
  macros : ∀ {s m m'}, R.macros s m m' → R'.macros s m m'
  contents : ∀ {s b b'}, R.contents s b b' → R'.contents s b b'
  markups : ∀ {s b b'}, R.markups s b b' → R'.markups s b b'

variable {R R' : CodeRel}

mutual

/-- Values stay related if more code corresponds. -/
lemma Value.Rel.mono (hR : R.Le R') : ∀ {v w : Value}, Value.Rel R v w → Value.Rel R' v w
  | .undefined, _, .undefined => .undefined
  | .nothing, _, .nothing => .nothing
  | .bool _, _, .bool b => .bool b
  | .number _, _, .number n => .number n
  | .string _, _, .string s => .string s
  | .list _, _, .list h => .list (items_mono hR h)
  | .map ⟨_⟩, _, .map (.mk h) => .map (.mk (entries_mono hR h))
  | .closure _ _ _, _, .closure i i' hm hs => .closure i i' (hR.macros hm) (scope_mono hR hs)
  | .block _ _ none _, _, .block i i' hb .none hs =>
    .block i i' (hR.contents hb) .none (scope_mono hR hs)
  | .block _ _ (some _) _, _, .block i i' hb (.some ho) hs =>
    .block i i' (hR.contents hb) (.some (ho.mono hR)) (scope_mono hR hs)
  | .space ⟨_⟩ none, _, .space (.mk h) => .space (.mk (entries_mono hR h))
  | .space ⟨_⟩ (some (_, _)), _, .shown (.mk h) hb hs =>
    .shown (.mk (entries_mono hR h)) (hR.markups hb) (scope_mono hR hs)

lemma Value.Rel.items_mono (hR : R.Le R') : ∀ {vs ws : List Value},
    List.Forall₂ (Value.Rel R) vs ws → List.Forall₂ (Value.Rel R') vs ws
  | [], _, .nil => .nil
  | _ :: _, _, .cons h hs => .cons (h.mono hR) (items_mono hR hs)

lemma Value.Rel.entries_mono (hR : R.Le R') {bound : Option String} :
    ∀ {es es' : Dict.Entries Value bound}, Dict.Entries.Rel (Value.Rel R) es es' →
      Dict.Entries.Rel (Value.Rel R') es es'
  | .nil, _, .nil => .nil
  | .cons .., _, .cons k above h hs => .cons k above (h.mono hR) (entries_mono hR hs)

lemma Value.Rel.scope_mono (hR : R.Le R') : ∀ {s s' : List (Dict Value)},
    List.Forall₂ (Dict.Rel (Value.Rel R)) s s' → List.Forall₂ (Dict.Rel (Value.Rel R')) s s'
  | [], _, .nil => .nil
  | ⟨_⟩ :: _, _, .cons (.mk h) hs => .cons (.mk (entries_mono hR h)) (scope_mono hR hs)

end

end Mono

end Stencil
