import Stencil.Proofs.References
import Stencil.Proofs.TopLevel

/-!
References in compiled code. `Expr.vars` and `Node.vars` list the variables that an expression or a
node mentions. Compiling turns each of them into a reference, and does nothing else to an
expression (`Expr.IsSource.references_resolve`), so that compiled code corresponds to itself as far
as the references do that its variables become (`Expr.rel_resolve`, `FileScope.node_of_plain`).
Linking turns some of the references into others, so that linked code corresponds to the code it has
been made from (`Code.Rel.replaceAll`).
-/

namespace Stencil

/-! ### Variables -/

mutual

/-- The names of the variables in an expression. -/
def Expr.vars : Expr → List String
  | .literal _ => []
  | .var name => [name]
  | .param _ => []
  | .context _ => []
  | .symbol _ => []
  | .member target _ => target.vars
  | .index target place => target.vars ++ place.vars
  | .list items => itemVars items
  | .map entries => entryVars entries
  | .call callee args kwargs => callee.vars ++ itemVars args ++ entryVars kwargs

/-- The names of the variables in expressions. -/
def Expr.itemVars : List Expr → List String
  | [] => []
  | e :: rest => e.vars ++ itemVars rest

/-- The names of the variables in named expressions. -/
def Expr.entryVars : List (String × Expr) → List String
  | [] => []
  | (_, e) :: rest => e.vars ++ entryVars rest

end

/-- The names of the variables in the defaults of a macro. -/
def Signature.vars (sig : Signature) : List String :=
  sig.params.flatMap fun p => (p.default.map (·.expr.vars)).getD []

/-- The names of the variables in the arguments of a tag. -/
def TagArgs.vars : TagArgs → List String
  | .definition sig => sig.vars
  | .callBlock e _ => e.vars
  | .importAll _ => []
  | .importNames _ => []

mutual

/-- The names of the variables in a node. -/
def Node.vars : Node → List String
  | .text _ => []
  | .output o => o.expr.vars
  | .tag head content => head.args.vars ++ nodeVars content

/-- The names of the variables in nodes. -/
def Node.nodeVars : List Node → List String
  | [] => []
  | n :: rest => n.vars ++ nodeVars rest

end

lemma Node.mem_nodeVars {ns : List Node} {x : String} :
    x ∈ nodeVars ns ↔ ∃ n ∈ ns, x ∈ n.vars := by
  induction ns with
  | nil => simp [nodeVars]
  | cons n rest ih => simp [nodeVars, ih]

/-! ### Resolution -/

namespace Expr

mutual

/-- What has been read refers to variables. -/
lemma IsSource.references_eq : ∀ {e : Expr}, e.IsSource → e.references = e.vars.map .var
  | .literal _, _ => rfl
  | .var _, _ => rfl
  | .member _ _, h => by
    cases h with
    | member _ ht => exact ht.references_eq
  | .index _ _, h => by
    cases h with
    | index ht hp => rw [references, vars, List.map_append, ht.references_eq, hp.references_eq]
  | .list _, h => by
    cases h with
    | list hes => exact itemReferences_eq hes
  | .map _, h => by
    cases h with
    | map hes => exact entryReferences_eq hes
  | .call _ _ _, h => by
    cases h with
    | call hc has hks =>
      rw [references, vars, List.map_append, List.map_append, hc.references_eq,
        itemReferences_eq has, entryReferences_eq hks]

lemma itemReferences_eq : ∀ {es : List Expr}, (∀ e ∈ es, e.IsSource) →
    itemReferences es = (itemVars es).map .var
  | [], _ => rfl
  | _ :: _, h => by
    rw [List.forall_mem_cons] at h
    rw [itemReferences, itemVars, List.map_append, h.1.references_eq, itemReferences_eq h.2]

lemma entryReferences_eq : ∀ {es : List (String × Expr)}, (∀ p ∈ es, p.2.IsSource) →
    entryReferences es = (entryVars es).map .var
  | [], _ => rfl
  | (_, _) :: _, h => by
    rw [List.forall_mem_cons] at h
    rw [entryReferences, entryVars, List.map_append, h.1.references_eq, entryReferences_eq h.2]

end

lemma relinked_resolveVar (isParam : String → Bool) : Relinked (resolveVar isParam) := by
  intro e he
  cases e with
  | var name => exact absurd (.var name) he
  | _ => rfl

/-- What the variable of a name becomes. -/
def located (isParam : String → Bool) (name : String) : Expr :=
  if isParam name then .param name else .context name

/-- Determining places turns each variable into a reference. -/
lemma references_resolve_vars (isParam : String → Bool) (names : List String) :
    ((names.map Expr.var).flatMap fun r => (r.replace (resolveVar isParam)).references) =
      names.map (located isParam) := by
  have hvar (name : String) : ((Expr.var name).replace (resolveVar isParam)).references =
      [located isParam name] := by
    show (if isParam name then Expr.param name else .context name).references = _
    rw [located]
    split <;> rfl
  rw [List.flatMap_map]
  simp only [hvar]
  rw [List.map_eq_flatMap]

lemma IsSource.references_resolve {e : Expr} (h : e.IsSource) (isParam : String → Bool) :
    (e.resolve isParam).references = e.vars.map (located isParam) := by
  rw [resolve, references_replace (relinked_resolveVar isParam), h.references_eq,
    references_resolve_vars]

lemma itemReferences_resolve {es : List Expr} (h : ∀ e ∈ es, e.IsSource)
    (isParam : String → Bool) :
    itemReferences (replaceItems (resolveVar isParam) es) =
      (itemVars es).map (located isParam) := by
  rw [itemReferences_replace (relinked_resolveVar isParam), itemReferences_eq h,
    references_resolve_vars]

lemma entryReferences_resolve {es : List (String × Expr)} (h : ∀ p ∈ es, p.2.IsSource)
    (isParam : String → Bool) :
    entryReferences (replaceEntries (resolveVar isParam) es) =
      (entryVars es).map (located isParam) := by
  rw [entryReferences_replace (relinked_resolveVar isParam), entryReferences_eq h,
    references_resolve_vars]

end Expr

section Resolve

variable {ref : Expr → Expr → Prop} {isParam : String → Bool}

/-- What a variable becomes corresponds to itself. -/
def Resolves (ref : Expr → Expr → Prop) (isParam : String → Bool) (name : String) : Prop :=
  ref (if isParam name then .param name else .context name)
    (if isParam name then .param name else .context name)

lemma Resolves.of_mem {names : List String} (h : ∀ x ∈ names, Resolves ref isParam x) :
    ∀ r ∈ names.map (Expr.located isParam), ref r r :=
  List.forall_mem_map.2 h

/-- A resolved expression corresponds to itself if what its variables become does so. -/
lemma Expr.rel_resolve {e : Expr} (he : e.IsSource) (h : ∀ x ∈ e.vars, Resolves ref isParam x) :
    Expr.Rel ref (e.resolve isParam) (e.resolve isParam) := by
  refine rel_of_references ?_
  rw [he.references_resolve]
  exact Resolves.of_mem h

lemma Expr.rel_resolveItems {es : List Expr} (he : ∀ e ∈ es, e.IsSource)
    (h : ∀ x ∈ itemVars es, Resolves ref isParam x) :
    Expr.ItemsRel ref (replaceItems (resolveVar isParam) es)
      (replaceItems (resolveVar isParam) es) := by
  refine rel_of_itemReferences ?_
  rw [itemReferences_resolve he]
  exact Resolves.of_mem h

lemma Expr.rel_resolveEntries {es : List (String × Expr)} (he : ∀ p ∈ es, p.2.IsSource)
    (h : ∀ x ∈ entryVars es, Resolves ref isParam x) :
    Expr.EntriesRel ref (replaceEntries (resolveVar isParam) es)
      (replaceEntries (resolveVar isParam) es) := by
  refine rel_of_entryReferences ?_
  rw [entryReferences_resolve he]
  exact Resolves.of_mem h

end Resolve

/-! ### Linked code -/

section Replace

variable {ref ref' : Expr → Expr → Prop} {f : Expr → Option Expr}

/-- Replacing single references makes related ones of related ones. -/
structure Relinks (ref ref' : Expr → Expr → Prop) (f : Expr → Option Expr) : Prop where
  reference : ∀ {e e'}, ref e e' → Expr.Rel ref' e (e'.replace f)
  other : ∀ {e}, ¬ e.IsReference → f e = none

/-- Nothing is replaced in the first expression. -/
lemma Relinks.both (hf : Relinks ref ref' f) : Expr.RelinksBoth ref ref' (fun _ => none) f where
  left _ := rfl
  right := hf.other
  reference {r r'} hr := by
    rw [Expr.replace_none]
    exact hf.reference hr

lemma Expr.Rel.replace (hf : Relinks ref ref' f) {e e' : Expr} (h : Expr.Rel ref e e') :
    Expr.Rel ref' e (e'.replace f) := by
  have hboth := h.replaceBoth hf.both
  rwa [replace_none] at hboth

/-- Code in which references have been replaced corresponds to the code it was before. -/
lemma Code.Rel.replaceAll (hf : Relinks ref ref' f) {is is' : List Instr}
    (h : Code.Rel ref is is') : Code.Rel ref' is (replaceAll f is') := by
  induction h with
  | nil => exact .nil
  | text s _ ih => exact .text s ih
  | output he _ ih => exact .output (he.replace hf) ih
  | callBlock source source' _ he _ ihbody ih =>
    exact .callBlock source source' ihbody (he.replace hf) ih

lemma Param.Rel.replace (hf : Relinks ref ref' f) {ps ps' : List Param}
    (h : List.Forall₂ (Param.Rel ref) ps ps') :
    List.Forall₂ (Param.Rel ref') ps (ps'.map (·.replace f)) := by
  refine List.forall₂_map_right_iff.2 (h.imp fun p p' hp => ⟨hp.name, ?_⟩)
  have hdefault := hp.default
  show Option.Rel (Expr.Rel ref') p.default (p'.default.map (·.replace f))
  generalize p.default = d at hdefault ⊢
  generalize p'.default = d' at hdefault ⊢
  cases hdefault with
  | none => exact .none
  | some he => exact .some (he.replace hf)

/-- So do macros. -/
lemma Macro.Rel.replace (hf : Relinks ref ref' f) {free : String → Prop} {m m' : Macro}
    (h : Macro.Rel ref free m m') : Macro.Rel ref' free m (m'.replace f) := by
  obtain ⟨name', params', body', file'⟩ := m'
  exact ⟨Param.Rel.replace hf h.params, h.free, h.body.replaceAll hf⟩

end Replace

/-! ### Compiled code -/

/-- A parameter or one of the allowed entries of the context, and itself. -/
inductive Expr.Compiled (allowed : String → Prop) : Expr → Expr → Prop
  | param (name : String) : Compiled allowed (.param name) (.param name)
  | context {name : String} : allowed name → Compiled allowed (.context name) (.context name)

lemma Expr.resolves_compiled {allowed : String → Prop} {isParam : String → Bool} {name : String}
    (h : allowed name) : Resolves (Expr.Compiled allowed) isParam name := by
  rw [Resolves]
  split
  · exact .param name
  · exact .context h

lemma Code.Rel.append {ref : Expr → Expr → Prop} {is is' js js' : List Instr}
    (h : Code.Rel ref is is') (hj : Code.Rel ref js js') :
    Code.Rel ref (is ++ js) (is' ++ js') := by
  induction h with
  | nil => exact hj
  | text s _ ih => exact .text s ih
  | output he _ ih => exact .output he ih
  | callBlock source source' hbody he _ _ ih => exact .callBlock source source' hbody he ih

namespace FileScope

variable {tags : TagSet} {allowed : String → Prop}

/-- Nodes that compile one by one compile together. -/
lemma nodes_of_node (params : List String) {ns : List Node}
    (h : ∀ n ∈ ns, ∃ is, (∀ u : FileScope, u.tags = tags → u.node params n = .ok is) ∧
      Code.Rel (Expr.Compiled allowed) is is) :
    ∃ is, (∀ u : FileScope, u.tags = tags → u.nodes params ns = .ok is) ∧
      Code.Rel (Expr.Compiled allowed) is is := by
  induction ns with
  | nil => exact ⟨[], fun _ _ => rfl, .nil⟩
  | cons n rest ih =>
    rw [List.forall_mem_cons] at h
    obtain ⟨⟨is, his, hrel⟩, hrest⟩ := h
    obtain ⟨more, hmore, hmoreRel⟩ := ih hrest
    refine ⟨is ++ more, fun u hu => ?_, hrel.append hmoreRel⟩
    rw [nodes, his u hu, hmore u hu]
    rfl

/-- A plain node compiles in every file alike, into code whose references are allowed. -/
lemma node_of_plain {n : Node} (hplain : n.Plain) : ∀ {params : List String}, n.Legible tags →
    (∀ x ∈ n.vars, allowed x) →
    ∃ is, (∀ u : FileScope, u.tags = tags → u.node params n = .ok is) ∧
      Code.Rel (Expr.Compiled allowed) is is := by
  induction hplain with
  | text s =>
    intro params _ _
    exact ⟨[.text s], fun _ _ => rfl, .text s .nil⟩
  | output o =>
    intro params hlegible hvars
    cases hlegible with
    | output ho =>
      refine ⟨[.output (resolve params o.expr)], fun _ _ => rfl, .output ?_ .nil⟩
      exact Expr.rel_resolve ho fun x hx => Expr.resolves_compiled (hvars x hx)
  | @callBlock head content hname _ ih =>
    intro params hlegible hvars
    rw [Node.vars, List.forall_mem_append] at hvars
    cases hlegible with
    | tag hhead hcontent =>
      obtain ⟨kind, hkind, hsays⟩ := hhead
      rw [hname] at hkind
      obtain rfl := TagSet.find?_callBlock hkind
      obtain ⟨name, args, line, span⟩ := head
      cases hsays with
      | @callBlock e source he =>
        have hnodes := nodes_of_node params fun n hn => ih n hn (hcontent n hn)
          fun x hx => hvars.2 x (Node.mem_nodeVars.2 ⟨n, hn, hx⟩)
        obtain ⟨body, hbody, hrel⟩ := hnodes
        refine ⟨[.callBlock body (resolve params e) source], fun u hu => ?_,
          .callBlock source source hrel (Expr.rel_resolve he fun x hx => ?_) .nil⟩
        · obtain rfl : name = TagKind.callBlock.name := hname
          rw [node, hu, hkind]
          dsimp only
          rw [hbody u hu]
          rfl
        · exact Expr.resolves_compiled (hvars.1 x hx)

end FileScope

end Stencil
