import Stencil.Proofs.Relation.Code

/-!
What an expression refers to. `Expr.references` lists the variables, the parameters, the entries of
the context and of the private table that occur in an expression, from left to right. Replacing
references replaces each of them where it stands (`Expr.references_replace`), and an expression is
determined by its references as far as evaluation goes: it corresponds to itself if they do
(`Expr.rel_of_references`), and to another one with references replaced in both if what they are
replaced by does (`Expr.Rel.replaceBoth`).

`Macro.references` lists those references in a macro that replacing reaches. A macro stays as it is
under a replacement exactly if none of them is replaced (`Macro.replace_eq_self_iff`).
-/

namespace Stencil

namespace Expr

mutual

/-- The references in an expression, from left to right. -/
def references : Expr → List Expr
  | .literal _ => []
  | .var name => [.var name]
  | .param name => [.param name]
  | .context name => [.context name]
  | .symbol key => [.symbol key]
  | .member target _ => target.references
  | .index target place => target.references ++ place.references
  | .list items => itemReferences items
  | .map entries => entryReferences entries
  | .call callee args kwargs =>
    callee.references ++ itemReferences args ++ entryReferences kwargs

/-- The references in expressions. -/
def itemReferences : List Expr → List Expr
  | [] => []
  | e :: rest => e.references ++ itemReferences rest

/-- The references in named expressions. -/
def entryReferences : List (String × Expr) → List Expr
  | [] => []
  | (_, e) :: rest => e.references ++ entryReferences rest

end

/-- A reference is all that it refers to. -/
lemma IsReference.references_eq {r : Expr} (h : r.IsReference) : r.references = [r] := by
  cases h <;> rfl

/-! ### Expressions that correspond to themselves -/

section Rel

variable {ref : Expr → Expr → Prop}

mutual

/-- An expression whose references correspond to themselves does so too. -/
lemma rel_of_references : ∀ {e : Expr}, (∀ r ∈ e.references, ref r r) → Rel ref e e
  | .literal l, _ => .literal l
  | .var _, h => .reference (h _ List.mem_cons_self)
  | .param _, h => .reference (h _ List.mem_cons_self)
  | .context _, h => .reference (h _ List.mem_cons_self)
  | .symbol _, h => .reference (h _ List.mem_cons_self)
  | .member _ name, h => .member name (rel_of_references h)
  | .index _ _, h => by
    rw [references, List.forall_mem_append] at h
    exact .index (rel_of_references h.1) (rel_of_references h.2)
  | .list _, h => .list (rel_of_itemReferences h)
  | .map _, h => .map (rel_of_entryReferences h)
  | .call _ _ _, h => by
    rw [references, List.forall_mem_append, List.forall_mem_append] at h
    exact .call (rel_of_references h.1.1) (rel_of_itemReferences h.1.2)
      (rel_of_entryReferences h.2)

lemma rel_of_itemReferences : ∀ {es : List Expr}, (∀ r ∈ itemReferences es, ref r r) →
    ItemsRel ref es es
  | [], _ => .nil
  | _ :: _, h => by
    rw [itemReferences, List.forall_mem_append] at h
    exact .cons (rel_of_references h.1) (rel_of_itemReferences h.2)

lemma rel_of_entryReferences : ∀ {es : List (String × Expr)}, (∀ r ∈ entryReferences es, ref r r) →
    EntriesRel ref es es
  | [], _ => .nil
  | (k, _) :: _, h => by
    rw [entryReferences, List.forall_mem_append] at h
    exact .cons k (rel_of_references h.1) (rel_of_entryReferences h.2)

end

mutual

/-- In expressions that correspond, each reference corresponds to another one. -/
lemma Rel.of_mem_references (href : ∀ {e e'}, ref e e' → e.IsReference) :
    ∀ {e e' : Expr}, Rel ref e e' → ∀ r ∈ e.references, ∃ r', ref r r'
  | _, _, .reference hr => by
    rw [(href hr).references_eq, List.forall_mem_singleton]
    exact ⟨_, hr⟩
  | _, _, .literal _ => List.forall_mem_nil _
  | _, _, .member _ ht => ht.of_mem_references href
  | _, _, .index ht hp => List.forall_mem_append.2
    ⟨ht.of_mem_references href, hp.of_mem_references href⟩
  | _, _, .list hes => hes.of_mem_references href
  | _, _, .map hes => hes.of_mem_references href
  | _, _, .call hc has hks => List.forall_mem_append.2
    ⟨List.forall_mem_append.2 ⟨hc.of_mem_references href, has.of_mem_references href⟩,
      hks.of_mem_references href⟩

lemma ItemsRel.of_mem_references (href : ∀ {e e'}, ref e e' → e.IsReference) :
    ∀ {es es' : List Expr}, ItemsRel ref es es' → ∀ r ∈ itemReferences es, ∃ r', ref r r'
  | _, _, .nil => List.forall_mem_nil _
  | _, _, .cons he hes => List.forall_mem_append.2
    ⟨he.of_mem_references href, hes.of_mem_references href⟩

lemma EntriesRel.of_mem_references (href : ∀ {e e'}, ref e e' → e.IsReference) :
    ∀ {es es' : List (String × Expr)}, EntriesRel ref es es' →
      ∀ r ∈ entryReferences es, ∃ r', ref r r'
  | _, _, .nil => List.forall_mem_nil _
  | _, _, .cons _ he hes => List.forall_mem_append.2
    ⟨he.of_mem_references href, hes.of_mem_references href⟩

end

end Rel

/-! ### Replaced references -/

section Replace

variable {f : Expr → Option Expr}

/-- The function replaces references only. -/
def Relinked (f : Expr → Option Expr) : Prop :=
  ∀ {e : Expr}, ¬ e.IsReference → f e = none

/-- A reference that is not replaced stays. -/
lemma IsReference.replace_eq {r : Expr} (h : r.IsReference) (hf : f r = none) :
    r.replace f = r := by
  cases h <;> rw [replace, hf]

lemma replace_of_some {e e' : Expr} (hf : f e = some e') : e.replace f = e' := by
  rw [replace.eq_def, hf]

mutual

/-- What replaces the references refers to what the replacements of each refer to. -/
lemma references_replace (hf : Relinked f) : ∀ e : Expr,
    (e.replace f).references = e.references.flatMap fun r => (r.replace f).references
  | .literal l => by
    rw [replace, hf (e := .literal l) (by rintro ⟨⟩)]
    rfl
  | .var name => by rw [references, List.flatMap_singleton]
  | .param name => by rw [references, List.flatMap_singleton]
  | .context name => by rw [references, List.flatMap_singleton]
  | .symbol key => by rw [references, List.flatMap_singleton]
  | .member target name => by
    rw [replace, hf (e := .member _ name) (by rintro ⟨⟩)]
    exact references_replace hf target
  | .index target place => by
    rw [replace, hf (e := .index _ _) (by rintro ⟨⟩)]
    simp only [references, List.flatMap_append, references_replace hf target,
      references_replace hf place]
  | .list items => by
    rw [replace, hf (e := .list _) (by rintro ⟨⟩)]
    exact itemReferences_replace hf items
  | .map entries => by
    rw [replace, hf (e := .map _) (by rintro ⟨⟩)]
    exact entryReferences_replace hf entries
  | .call callee args kwargs => by
    rw [replace, hf (e := .call _ _ _) (by rintro ⟨⟩)]
    simp only [references, List.flatMap_append, references_replace hf callee,
      itemReferences_replace hf args, entryReferences_replace hf kwargs]

lemma itemReferences_replace (hf : Relinked f) : ∀ es : List Expr,
    itemReferences (replaceItems f es) =
      (itemReferences es).flatMap fun r => (r.replace f).references
  | [] => rfl
  | e :: rest => by
    simp only [replaceItems, itemReferences, List.flatMap_append, references_replace hf e,
      itemReferences_replace hf rest]

lemma entryReferences_replace (hf : Relinked f) : ∀ es : List (String × Expr),
    entryReferences (replaceEntries f es) =
      (entryReferences es).flatMap fun r => (r.replace f).references
  | [] => rfl
  | (k, e) :: rest => by
    simp only [replaceEntries, entryReferences, List.flatMap_append, references_replace hf e,
      entryReferences_replace hf rest]

end

end Replace

/-- Replacing references in both makes related expressions of related ones. -/
structure RelinksBoth (ref ref' : Expr → Expr → Prop) (f g : Expr → Option Expr) : Prop where
  left : Relinked f
  right : Relinked g
  reference : ∀ {r r'}, ref r r' → Rel ref' (r.replace f) (r'.replace g)

section Both

variable {ref ref' : Expr → Expr → Prop} {f g : Expr → Option Expr}

mutual

lemma Rel.replaceBoth (H : RelinksBoth ref ref' f g) :
    ∀ {e e' : Expr}, Rel ref e e' → Rel ref' (e.replace f) (e'.replace g)
  | _, _, .reference hr => H.reference hr
  | _, _, .literal l => by
    rw [replace, replace, H.left (e := .literal l) (by rintro ⟨⟩),
      H.right (e := .literal l) (by rintro ⟨⟩)]
    exact .literal l
  | _, _, .member name ht => by
    rw [replace, replace, H.left (e := .member _ name) (by rintro ⟨⟩),
      H.right (e := .member _ name) (by rintro ⟨⟩)]
    exact .member name (ht.replaceBoth H)
  | _, _, .index ht hp => by
    rw [replace, replace, H.left (e := .index _ _) (by rintro ⟨⟩),
      H.right (e := .index _ _) (by rintro ⟨⟩)]
    exact .index (ht.replaceBoth H) (hp.replaceBoth H)
  | _, _, .list hes => by
    rw [replace, replace, H.left (e := .list _) (by rintro ⟨⟩),
      H.right (e := .list _) (by rintro ⟨⟩)]
    exact .list (hes.replaceBoth H)
  | _, _, .map hes => by
    rw [replace, replace, H.left (e := .map _) (by rintro ⟨⟩),
      H.right (e := .map _) (by rintro ⟨⟩)]
    exact .map (hes.replaceBoth H)
  | _, _, .call hc has hks => by
    rw [replace, replace, H.left (e := .call _ _ _) (by rintro ⟨⟩),
      H.right (e := .call _ _ _) (by rintro ⟨⟩)]
    exact .call (hc.replaceBoth H) (has.replaceBoth H) (hks.replaceBoth H)

lemma ItemsRel.replaceBoth (H : RelinksBoth ref ref' f g) : ∀ {es es' : List Expr},
    ItemsRel ref es es' → ItemsRel ref' (replaceItems f es) (replaceItems g es')
  | _, _, .nil => .nil
  | _, _, .cons he hes => .cons (he.replaceBoth H) (hes.replaceBoth H)

lemma EntriesRel.replaceBoth (H : RelinksBoth ref ref' f g) : ∀ {es es' : List (String × Expr)},
    EntriesRel ref es es' → EntriesRel ref' (replaceEntries f es) (replaceEntries g es')
  | _, _, .nil => .nil
  | _, _, .cons k he hes => .cons k (he.replaceBoth H) (hes.replaceBoth H)

end

/-- What the references in an expression become determines what the expression becomes. -/
lemma rel_replaceBoth_of_references (hf : Relinked f) (hg : Relinked g) {e : Expr}
    (h : ∀ r ∈ e.references, Rel ref (r.replace f) (r.replace g)) :
    Rel ref (e.replace f) (e.replace g) :=
  (rel_of_references h).replaceBoth ⟨hf, hg, fun hr => hr⟩

end Both

end Expr

/-! ### Code -/

/-- The references in the default of a parameter. -/
def Param.references (p : Param) : List Expr :=
  (p.default.map (·.references)).getD []

/-- What the references in defaults become determines what the parameters become. -/
lemma Param.rel_replaceBoth {ref : Expr → Expr → Prop} {f g : Expr → Option Expr}
    (hf : Expr.Relinked f) (hg : Expr.Relinked g) {ps : List Param}
    (href : ∀ r ∈ ps.flatMap Param.references, Expr.Rel ref (r.replace f) (r.replace g)) :
    List.Forall₂ (Param.Rel ref) (ps.map (·.replace f)) (ps.map (·.replace g)) := by
  refine List.forall₂_map_left_iff.2 (List.forall₂_map_right_iff.2
    (List.forall₂_same.2 fun p hp => ⟨rfl, ?_⟩))
  have hparam := List.forall_mem_flatMap.1 href p hp
  rw [references] at hparam
  show Option.Rel _ (p.default.map _) (p.default.map _)
  generalize p.default = d at hparam ⊢
  cases d with
  | none => exact .none
  | some e => exact .some (Expr.rel_replaceBoth_of_references hf hg hparam)

mutual

/-- The references in an instruction that replacing reaches: those outside of namespaces. -/
def Instr.references : Instr → List Expr
  | .text _ => []
  | .output e => e.references
  | .define _ m => m.references
  | .callBlock body e _ => allReferences body ++ e.references
  | .bindSpace _ _ _ => []

/-- The references in a macro that replacing reaches. -/
def Macro.references : Macro → List Expr
  | ⟨_, params, body, _⟩ => params.flatMap Param.references ++ allReferences body

/-- The references in instructions that replacing reaches. -/
def allReferences : List Instr → List Expr
  | [] => []
  | i :: rest => i.references ++ allReferences rest

end

section Changes

variable {f : Expr → Option Expr}

/-- The function replaces references only, and none by itself. -/
structure Expr.Changes (f : Expr → Option Expr) : Prop where
  relinked : Relinked f
  ne : ∀ {e e'}, f e = some e' → e' ≠ e

lemma Expr.IsReference.replace_eq_self_iff {r : Expr} (hf : Changes f) (h : r.IsReference) :
    r.replace f = r ↔ ∀ q ∈ r.references, f q = none := by
  rw [h.references_eq, List.forall_mem_singleton]
  constructor
  · intro heq
    cases hfr : f r with
    | none => rfl
    | some e => exact absurd ((replace_of_some hfr).symm.trans heq) (hf.ne hfr)
  · exact h.replace_eq

mutual

/-- An expression changes exactly if one of the references in it is replaced. -/
lemma Expr.replace_eq_self_iff (hf : Changes f) : ∀ e : Expr,
    e.replace f = e ↔ ∀ r ∈ e.references, f r = none
  | .literal l => by
    rw [replace, hf.relinked (e := .literal l) (by rintro ⟨⟩), references]
    simp
  | .var name => IsReference.replace_eq_self_iff hf (.var name)
  | .param name => IsReference.replace_eq_self_iff hf (.param name)
  | .context name => IsReference.replace_eq_self_iff hf (.context name)
  | .symbol key => IsReference.replace_eq_self_iff hf (.symbol key)
  | .member target name => by
    rw [replace, hf.relinked (e := .member _ name) (by rintro ⟨⟩), references,
      ← replace_eq_self_iff hf target]
    simp
  | .index target place => by
    rw [replace, hf.relinked (e := .index _ _) (by rintro ⟨⟩), references, List.forall_mem_append,
      ← replace_eq_self_iff hf target, ← replace_eq_self_iff hf place]
    simp
  | .list items => by
    rw [replace, hf.relinked (e := .list _) (by rintro ⟨⟩), references,
      ← replaceItems_eq_self_iff hf items]
    simp
  | .map entries => by
    rw [replace, hf.relinked (e := .map _) (by rintro ⟨⟩), references,
      ← replaceEntries_eq_self_iff hf entries]
    simp
  | .call callee args kwargs => by
    rw [replace, hf.relinked (e := .call _ _ _) (by rintro ⟨⟩), references, List.forall_mem_append,
      List.forall_mem_append, ← replace_eq_self_iff hf callee, ← replaceItems_eq_self_iff hf args,
      ← replaceEntries_eq_self_iff hf kwargs]
    simp [and_assoc]

lemma Expr.replaceItems_eq_self_iff (hf : Changes f) : ∀ es : List Expr,
    replaceItems f es = es ↔ ∀ r ∈ itemReferences es, f r = none
  | [] => by simp [replaceItems, itemReferences]
  | e :: rest => by
    rw [replaceItems, itemReferences, List.forall_mem_append, ← replace_eq_self_iff hf e,
      ← replaceItems_eq_self_iff hf rest]
    simp

lemma Expr.replaceEntries_eq_self_iff (hf : Changes f) : ∀ es : List (String × Expr),
    replaceEntries f es = es ↔ ∀ r ∈ entryReferences es, f r = none
  | [] => by simp [replaceEntries, entryReferences]
  | (k, e) :: rest => by
    rw [replaceEntries, entryReferences, List.forall_mem_append, ← replace_eq_self_iff hf e,
      ← replaceEntries_eq_self_iff hf rest]
    simp

end

lemma Expr.changes_none : Changes fun _ => none :=
  ⟨fun _ => rfl, fun h => nomatch h⟩

/-- Replacing nothing changes nothing. -/
lemma Expr.replace_none (e : Expr) : e.replace (fun _ => none) = e :=
  (e.replace_eq_self_iff changes_none).2 fun _ _ => rfl

/-- Expressions stay related if more references are related. -/
lemma Expr.Rel.mono {ref ref' : Expr → Expr → Prop} (h : ∀ {r r'}, ref r r' → ref' r r')
    {e e' : Expr} (he : Expr.Rel ref e e') : Expr.Rel ref' e e' := by
  have hrel := he.replaceBoth (f := fun _ => none) (g := fun _ => none)
    ⟨fun _ => rfl, fun _ => rfl, fun hr => by
      rw [Expr.replace_none, Expr.replace_none]
      exact .reference (h hr)⟩
  rwa [Expr.replace_none, Expr.replace_none] at hrel

lemma Param.Rel.mono {ref ref' : Expr → Expr → Prop} (h : ∀ {r r'}, ref r r' → ref' r r')
    {p p' : Param} (hp : Param.Rel ref p p') : Param.Rel ref' p p' := by
  refine ⟨hp.name, ?_⟩
  have hdefault := hp.default
  generalize p.default = d at hdefault ⊢
  generalize p'.default = d' at hdefault ⊢
  cases hdefault with
  | none => exact .none
  | some he => exact .some (he.mono h)

lemma Param.replace_eq_self_iff (hf : Expr.Changes f) (p : Param) :
    p.replace f = p ↔ ∀ r ∈ p.references, f r = none := by
  obtain ⟨name, default⟩ := p
  rw [Param.replace, Param.references]
  cases default with
  | none => simp
  | some e => simp [e.replace_eq_self_iff hf]

lemma Param.map_replace_eq_self_iff (hf : Expr.Changes f) (ps : List Param) :
    ps.map (·.replace f) = ps ↔ ∀ r ∈ ps.flatMap Param.references, f r = none := by
  rw [List.forall_mem_flatMap]
  constructor
  · intro heq p hp
    rw [← Param.replace_eq_self_iff hf]
    exact List.map_inj_left.1 (heq.trans (List.map_id ps).symm) p hp
  · intro h
    exact (List.map_inj_left.2 fun p hp => (p.replace_eq_self_iff hf).2 (h p hp)).trans
      (List.map_id ps)

mutual

/-- Code changes exactly if one of the references that replacing reaches is replaced. -/
lemma Instr.replace_eq_self_iff (hf : Expr.Changes f) : ∀ i : Instr,
    i.replace f = i ↔ ∀ r ∈ i.references, f r = none
  | .text s => by simp [Instr.replace, Instr.references]
  | .output e => by simp [Instr.replace, Instr.references, e.replace_eq_self_iff hf]
  | .define target m => by
    rw [Instr.replace, Instr.references, ← Macro.replace_eq_self_iff hf m]
    simp
  | .callBlock body e source => by
    rw [Instr.replace, Instr.references, List.forall_mem_append, ← replaceAll_eq_self_iff hf body,
      ← e.replace_eq_self_iff hf]
    simp
  | .bindSpace handle members markup => by simp [Instr.replace, Instr.references]

lemma Macro.replace_eq_self_iff (hf : Expr.Changes f) : ∀ m : Macro,
    m.replace f = m ↔ ∀ r ∈ m.references, f r = none
  | ⟨name, params, body, file⟩ => by
    rw [Macro.replace, Macro.references, List.forall_mem_append, ← replaceAll_eq_self_iff hf body,
      ← Param.map_replace_eq_self_iff hf]
    simp

lemma replaceAll_eq_self_iff (hf : Expr.Changes f) : ∀ is : List Instr,
    replaceAll f is = is ↔ ∀ r ∈ allReferences is, f r = none
  | [] => by simp [replaceAll, allReferences]
  | i :: rest => by
    rw [replaceAll, allReferences, List.forall_mem_append, ← Instr.replace_eq_self_iff hf i,
      ← replaceAll_eq_self_iff hf rest]
    simp

end

end Changes

end Stencil
