import Stencil.Proofs.Relation.Value

/-!
Code that differs only in how it refers to things. `Expr.Rel ref` relates expressions that are
equal except for their references, which are related by `ref`. `Code.Rel ref` does the same for
instructions that define nothing: texts, outputs and call blocks. Macros correspond if their
parameters have the same names and related defaults, and their bodies are related; that the names of
parameters are `free` says which entries of the context an invocation may remove.
-/

namespace Stencil

namespace Expr

/-- The expressions that refer to something: to a parameter, to an entry of the context or to one of
the private table. -/
inductive IsReference : Expr → Prop
  | var (name : String) : IsReference (.var name)
  | param (name : String) : IsReference (.param name)
  | context (name : String) : IsReference (.context name)
  | symbol (key : Symbol) : IsReference (.symbol key)

mutual

/-- Expressions that are equal except for references related by `ref`. -/
inductive Rel (ref : Expr → Expr → Prop) : Expr → Expr → Prop
  | reference {e e' : Expr} : ref e e' → Rel ref e e'
  | literal (l : Literal) : Rel ref (.literal l) (.literal l)
  | member {t t' : Expr} (name : String) : Rel ref t t' →
      Rel ref (.member t name) (.member t' name)
  | index {t t' p p' : Expr} : Rel ref t t' → Rel ref p p' → Rel ref (.index t p) (.index t' p')
  | list {es es' : List Expr} : ItemsRel ref es es' → Rel ref (.list es) (.list es')
  | map {es es' : List (String × Expr)} : EntriesRel ref es es' → Rel ref (.map es) (.map es')
  | call {c c' : Expr} {as as' : List Expr} {ks ks' : List (String × Expr)} :
      Rel ref c c' → ItemsRel ref as as' → EntriesRel ref ks ks' →
      Rel ref (.call c as ks) (.call c' as' ks')

/-- Lists of such expressions. -/
inductive ItemsRel (ref : Expr → Expr → Prop) : List Expr → List Expr → Prop
  | nil : ItemsRel ref [] []
  | cons {e e' : Expr} {es es' : List Expr} : Rel ref e e' → ItemsRel ref es es' →
      ItemsRel ref (e :: es) (e' :: es')

/-- Lists of such expressions with the same names. -/
inductive EntriesRel (ref : Expr → Expr → Prop) :
    List (String × Expr) → List (String × Expr) → Prop
  | nil : EntriesRel ref [] []
  | cons (k : String) {e e' : Expr} {es es' : List (String × Expr)} : Rel ref e e' →
      EntriesRel ref es es' → EntriesRel ref ((k, e) :: es) ((k, e') :: es')

end

variable {ref : Expr → Expr → Prop}

lemma EntriesRel.isEmpty_eq {es es' : List (String × Expr)} (h : EntriesRel ref es es') :
    es.isEmpty = es'.isEmpty := by
  cases h <;> rfl

mutual

/-- An expression whose references correspond to themselves does so too. -/
lemma Rel.refl (h : ∀ e, IsReference e → ref e e) : ∀ e : Expr, Rel ref e e
  | .literal l => .literal l
  | .var name => .reference (h _ (.var name))
  | .param name => .reference (h _ (.param name))
  | .context name => .reference (h _ (.context name))
  | .symbol key => .reference (h _ (.symbol key))
  | .member t name => .member name (Rel.refl h t)
  | .index t p => .index (Rel.refl h t) (Rel.refl h p)
  | .list es => .list (ItemsRel.refl h es)
  | .map es => .map (EntriesRel.refl h es)
  | .call c as ks => .call (Rel.refl h c) (ItemsRel.refl h as) (EntriesRel.refl h ks)

lemma ItemsRel.refl (h : ∀ e, IsReference e → ref e e) : ∀ es : List Expr, ItemsRel ref es es
  | [] => .nil
  | e :: es => .cons (Rel.refl h e) (ItemsRel.refl h es)

lemma EntriesRel.refl (h : ∀ e, IsReference e → ref e e) :
    ∀ es : List (String × Expr), EntriesRel ref es es
  | [] => .nil
  | (k, e) :: es => .cons k (Rel.refl h e) (EntriesRel.refl h es)

end

mutual

/-- Where references correspond to themselves alone, expressions do so too. -/
lemma Rel.eq (h : ∀ e e', ref e e' → e = e') : ∀ {e e' : Expr}, Rel ref e e' → e = e'
  | _, _, .reference hr => h _ _ hr
  | _, _, .literal _ => rfl
  | _, _, .member _ ht => by rw [ht.eq h]
  | _, _, .index ht hp => by rw [ht.eq h, hp.eq h]
  | _, _, .list hes => by rw [hes.eq h]
  | _, _, .map hes => by rw [hes.eq h]
  | _, _, .call hc has hks => by rw [hc.eq h, has.eq h, hks.eq h]

lemma ItemsRel.eq (h : ∀ e e', ref e e' → e = e') :
    ∀ {es es' : List Expr}, ItemsRel ref es es' → es = es'
  | _, _, .nil => rfl
  | _, _, .cons he hes => by rw [he.eq h, hes.eq h]

lemma EntriesRel.eq (h : ∀ e e', ref e e' → e = e') :
    ∀ {es es' : List (String × Expr)}, EntriesRel ref es es' → es = es'
  | _, _, .nil => rfl
  | _, _, .cons _ he hes => by rw [he.eq h, hes.eq h]

end

/-- Messages that do not tell references apart do not tell expressions apart. -/
lemma Rel.describe_eq (h : ∀ e e', ref e e' → e.describe = e'.describe) :
    ∀ {e e' : Expr}, Rel ref e e' → e.describe = e'.describe
  | _, _, .reference hr => h _ _ hr
  | _, _, .member _ ht => by rw [describe, describe, ht.describe_eq h]
  | _, _, .literal _ => rfl
  | _, _, .index _ _ => rfl
  | _, _, .list _ => rfl
  | _, _, .map _ => rfl
  | _, _, .call _ _ _ => rfl

end Expr

/-! ### Code that defines nothing -/

/-- Texts, outputs and call blocks that are equal except for references related by `ref`. -/
inductive Code.Rel (ref : Expr → Expr → Prop) : List Instr → List Instr → Prop
  | nil : Rel ref [] []
  | text (s : String) {is is' : List Instr} : Rel ref is is' →
      Rel ref (.text s :: is) (.text s :: is')
  | output {e e' : Expr} {is is' : List Instr} : Expr.Rel ref e e' → Rel ref is is' →
      Rel ref (.output e :: is) (.output e' :: is')
  | callBlock {body body' : List Instr} {e e' : Expr} (source source' : String)
      {is is' : List Instr} : Rel ref body body' → Expr.Rel ref e e' → Rel ref is is' →
      Rel ref (.callBlock body e source :: is) (.callBlock body' e' source' :: is')

/-- Parameters with the same name and related defaults. -/
structure Param.Rel (ref : Expr → Expr → Prop) (p p' : Param) : Prop where
  name : p.name = p'.name
  default : Option.Rel (Expr.Rel ref) p.default p'.default

/-- Macros that define nothing, with corresponding parameters and bodies. -/
structure Macro.Rel (ref : Expr → Expr → Prop) (free : String → Prop) (m m' : Macro) : Prop where
  params : List.Forall₂ (Param.Rel ref) m.params m'.params
  free : ∀ p ∈ m.params, free p.name
  body : Code.Rel ref m.body m'.body

/-- The code in values, if it defines nothing. -/
def CodeRel.flat (ref : Expr → Expr → Prop) (free : String → Prop) : CodeRel :=
  ⟨fun _ => Macro.Rel ref free, fun _ => Code.Rel ref, fun _ => Code.Rel ref⟩

lemma Param.Rel.map_name_eq {ref : Expr → Expr → Prop} {ps ps' : List Param}
    (h : List.Forall₂ (Param.Rel ref) ps ps') : ps.map (·.name) = ps'.map (·.name) := by
  induction h with
  | nil => rfl
  | cons hp _ ih => rw [List.map_cons, List.map_cons, hp.name, ih]

end Stencil
