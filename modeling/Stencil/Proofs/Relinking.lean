import Stencil.Proofs.Importing
import Stencil.Proofs.Lookup
import Stencil.Proofs.Qualification

/-!
What linking changes in a macro. Code is **respelled** (`Code.Respelled`) if references in it have
been replaced and nothing else has: texts, literals, the names of members, keys and keywords, and
the names of macros and parameters stay, in call blocks, defaults and nested macros as well.

`Exports.Qualifies` and `Exports.Hides` say how references are spelled when the macros of a file go
into a namespace and when only selected ones go into the context: macros of the file get a new
spelling and everything else keeps the old one. What has been replaced can be put back
(`Expr.Restores`), which restores the macro. The main result is `linking_exact`, for the macros of
any imported file that import nothing themselves.
-/

namespace Stencil

/-! ### Respelled code -/

/-- Code that imports nothing, and the same code with references replaced by related expressions. -/
inductive Code.Respelled (ref : Expr → Expr → Prop) : List Instr → List Instr → Prop
  | nil : Respelled ref [] []
  | text (s : String) {is is' : List Instr} : Respelled ref is is' →
      Respelled ref (.text s :: is) (.text s :: is')
  | output {e e' : Expr} {is is' : List Instr} : Expr.Rel ref e e' → Respelled ref is is' →
      Respelled ref (.output e :: is) (.output e' :: is')
  | define (target : Binding) (name file : String) {ps ps' : List Param}
      {body body' is is' : List Instr} : List.Forall₂ (Param.Rel ref) ps ps' →
      Respelled ref body body' → Respelled ref is is' →
      Respelled ref (.define target ⟨name, ps, body, file⟩ :: is)
        (.define target ⟨name, ps', body', file⟩ :: is')
  | callBlock (source : String) {body body' : List Instr} {e e' : Expr} {is is' : List Instr} :
      Respelled ref body body' → Expr.Rel ref e e' → Respelled ref is is' →
      Respelled ref (.callBlock body e source :: is) (.callBlock body' e' source :: is')

/-- A macro that imports nothing, and the same macro with references replaced. -/
structure Macro.Respelled (ref : Expr → Expr → Prop) (m m' : Macro) : Prop where
  name : m'.name = m.name
  file : m'.file = m.file
  params : List.Forall₂ (Param.Rel ref) m.params m'.params
  body : Code.Respelled ref m.body m'.body

lemma Macro.respelled_of_define {ref : Expr → Expr → Prop} {target : Binding} {m m' : Macro}
    (h : Code.Respelled ref [.define target m] [.define target m']) : m.Respelled ref m' := by
  cases h with
  | define target name file hparams hbody _ => exact ⟨rfl, rfl, hparams, hbody⟩

section Replace

variable {ref ref' : Expr → Expr → Prop} {f : Expr → Option Expr}

lemma Code.Respelled.replaceAll (hf : Relinks ref ref' f) {is is' : List Instr}
    (h : Code.Respelled ref is is') : Code.Respelled ref' is (replaceAll f is') := by
  induction h with
  | nil => exact .nil
  | text s _ ih => exact .text s ih
  | output he _ ih => exact .output (he.replace hf) ih
  | define target name file hparams _ _ ihbody ih =>
    exact .define target name file (Param.Rel.replace hf hparams) ihbody ih
  | callBlock source _ he _ ihbody ih => exact .callBlock source ihbody (he.replace hf) ih

lemma Macro.Respelled.replace (hf : Relinks ref ref' f) {m m' : Macro}
    (h : m.Respelled ref m') : m.Respelled ref' (m'.replace f) := by
  obtain ⟨name', params', body', file'⟩ := m'
  exact ⟨h.name, h.file, Param.Rel.replace hf h.params, h.body.replaceAll hf⟩

end Replace

/-! ### References in respelled code -/

section References

variable {ref : Expr → Expr → Prop}

/-- The reference stands in what a reference is related to. -/
def Expr.Replaces (ref : Expr → Expr → Prop) (r' : Expr) : Prop :=
  ∃ r q, ref r q ∧ r' ∈ q.references

namespace Expr

mutual

lemma Rel.replaces : ∀ {e e' : Expr}, Rel ref e e' → ∀ r' ∈ e'.references, Replaces ref r'
  | _, _, .reference hr => fun _ hmem => ⟨_, _, hr, hmem⟩
  | _, _, .literal _ => List.forall_mem_nil _
  | _, _, .member _ ht => ht.replaces
  | _, _, .index ht hp => List.forall_mem_append.2 ⟨ht.replaces, hp.replaces⟩
  | _, _, .list hes => hes.replaces
  | _, _, .map hes => hes.replaces
  | _, _, .call hc has hks => List.forall_mem_append.2
    ⟨List.forall_mem_append.2 ⟨hc.replaces, has.replaces⟩, hks.replaces⟩

lemma ItemsRel.replaces : ∀ {es es' : List Expr}, ItemsRel ref es es' →
    ∀ r' ∈ itemReferences es', Replaces ref r'
  | _, _, .nil => List.forall_mem_nil _
  | _, _, .cons he hes => List.forall_mem_append.2 ⟨he.replaces, hes.replaces⟩

lemma EntriesRel.replaces : ∀ {es es' : List (String × Expr)}, EntriesRel ref es es' →
    ∀ r' ∈ entryReferences es', Replaces ref r'
  | _, _, .nil => List.forall_mem_nil _
  | _, _, .cons _ he hes => List.forall_mem_append.2 ⟨he.replaces, hes.replaces⟩

end

end Expr

lemma Param.Rel.replaces {ps ps' : List Param} (h : List.Forall₂ (Param.Rel ref) ps ps') :
    ∀ r' ∈ ps'.flatMap Param.references, Expr.Replaces ref r' := by
  induction h with
  | nil => exact List.forall_mem_nil _
  | @cons p p' ps ps' hp _ ih =>
    rw [List.flatMap_cons, List.forall_mem_append]
    refine ⟨?_, ih⟩
    obtain ⟨name, default⟩ := p
    obtain ⟨name', default'⟩ := p'
    obtain ⟨_, hdefault⟩ := hp
    cases hdefault with
    | none => exact List.forall_mem_nil _
    | some he => exact he.replaces

lemma Code.Respelled.replaces {is is' : List Instr} (h : Code.Respelled ref is is') :
    ∀ r' ∈ allReferences is', Expr.Replaces ref r' := by
  induction h with
  | nil => exact List.forall_mem_nil _
  | text s _ ih => exact ih
  | output he _ ih => exact List.forall_mem_append.2 ⟨he.replaces, ih⟩
  | define target name file hparams _ _ ihbody ih =>
    exact List.forall_mem_append.2
      ⟨List.forall_mem_append.2 ⟨Param.Rel.replaces hparams, ihbody⟩, ih⟩
  | callBlock source _ he _ ihbody ih =>
    exact List.forall_mem_append.2 ⟨List.forall_mem_append.2 ⟨ihbody, he.replaces⟩, ih⟩

/-- All references in a respelled macro come from references of the macro it was. -/
lemma Macro.Respelled.replaces {m m' : Macro} (h : m.Respelled ref m') :
    ∀ r' ∈ m'.references, Expr.Replaces ref r' := by
  obtain ⟨name', params', body', file'⟩ := m'
  exact List.forall_mem_append.2 ⟨Param.Rel.replaces h.params, h.body.replaces⟩

end References

/-! ### Put back -/

/-- Replacing again restores what references have been replaced by, and touches nothing else. -/
structure Expr.Restores (ref : Expr → Expr → Prop) (back : Expr → Option Expr) : Prop where
  reference : ∀ {r r'}, ref r r' → r'.replace back = r
  other : ∀ {e e'}, Expr.Rel ref e e' → ¬ e.IsReference → back e' = none

section Restore

variable {ref : Expr → Expr → Prop} {back : Expr → Option Expr}

namespace Expr

mutual

lemma Rel.restore (H : Restores ref back) :
    ∀ {e e' : Expr}, Rel ref e e' → e'.replace back = e
  | _, _, .reference hr => H.reference hr
  | _, _, .literal l => by rw [replace, H.other (.literal l) (by rintro ⟨⟩)]
  | _, _, .member name ht => by
    rw [replace, H.other (.member name ht) (by rintro ⟨⟩)]
    exact congrArg (member · name) (ht.restore H)
  | _, _, .index ht hp => by
    rw [replace, H.other (.index ht hp) (by rintro ⟨⟩)]
    exact congrArg₂ index (ht.restore H) (hp.restore H)
  | _, _, .list hes => by
    rw [replace, H.other (.list hes) (by rintro ⟨⟩)]
    exact congrArg list (hes.restore H)
  | _, _, .map hes => by
    rw [replace, H.other (.map hes) (by rintro ⟨⟩)]
    exact congrArg map (hes.restore H)
  | _, _, .call hc has hks => by
    rw [replace, H.other (.call hc has hks) (by rintro ⟨⟩)]
    dsimp only
    rw [hc.restore H, has.restore H, hks.restore H]

lemma ItemsRel.restore (H : Restores ref back) :
    ∀ {es es' : List Expr}, ItemsRel ref es es' → replaceItems back es' = es
  | _, _, .nil => rfl
  | _, _, .cons he hes => congrArg₂ List.cons (he.restore H) (hes.restore H)

lemma EntriesRel.restore (H : Restores ref back) :
    ∀ {es es' : List (String × Expr)}, EntriesRel ref es es' → replaceEntries back es' = es
  | _, _, .nil => rfl
  | _, _, .cons k he hes => by rw [replaceEntries, he.restore H, hes.restore H]

end

end Expr

lemma Param.Rel.restore (H : Expr.Restores ref back) {ps ps' : List Param}
    (h : List.Forall₂ (Param.Rel ref) ps ps') : ps'.map (·.replace back) = ps := by
  induction h with
  | nil => rfl
  | @cons p p' ps ps' hp _ ih =>
    rw [List.map_cons, ih]
    obtain ⟨name, default⟩ := p
    obtain ⟨name', default'⟩ := p'
    obtain ⟨rfl, hdefault⟩ := hp
    cases hdefault with
    | none => rfl
    | some he => exact congrArg (⟨name, some ·⟩ :: ps) (he.restore H)

lemma Code.Respelled.restore (H : Expr.Restores ref back) {is is' : List Instr}
    (h : Code.Respelled ref is is') : Stencil.replaceAll back is' = is := by
  induction h with
  | nil => rfl
  | text s _ ih => rw [Stencil.replaceAll, Instr.replace, ih]
  | output he _ ih => rw [Stencil.replaceAll, Instr.replace, he.restore H, ih]
  | define target name file hparams _ _ ihbody ih =>
    rw [Stencil.replaceAll, Instr.replace, Macro.replace, Param.Rel.restore H hparams, ihbody, ih]
  | callBlock source _ he _ ihbody ih =>
    rw [Stencil.replaceAll, Instr.replace, ihbody, he.restore H, ih]

lemma Macro.Respelled.restore (H : Expr.Restores ref back) {m m' : Macro}
    (h : m.Respelled ref m') : m'.replace back = m := by
  obtain ⟨name, params, body, file⟩ := m
  obtain ⟨name', params', body', file'⟩ := m'
  obtain ⟨rfl, rfl, hparams, hbody⟩ := h
  rw [Macro.replace, Param.Rel.restore H hparams, hbody.restore H]

end Restore

/-! ### The spellings of macros -/

namespace Exports

variable (x : Exports)

/-- How references are spelled in the namespace `handle`: macros of the file are members of it, and
nothing else refers to it. -/
inductive Qualifies (handle : String) : Expr → Expr → Prop
  | param (name : String) : Qualifies handle (.param name) (.param name)
  | context {name : String} : ¬ x.has name = true → name ≠ handle →
      Qualifies handle (.context name) (.context name)
  | sibling {name : String} : x.has name = true →
      Qualifies handle (.context name) (.member (.context handle) name)

/-- How references are spelled if only the selected macros of the file go into the context. -/
inductive Hides (selected : List String) : Expr → Expr → Prop
  | param (name : String) : Hides selected (.param name) (.param name)
  | context {name : String} : (x.has name = true → name ∈ selected) →
      Hides selected (.context name) (.context name)
  | sibling {name : String} : x.has name = true → name ∉ selected →
      Hides selected (.context name) (.symbol (x.key name))

/-- What a macro of the file in the namespace `handle` was before. -/
def fromMember (handle : String) : Expr → Option Expr
  | .member (.context root) name =>
    if root = handle ∧ x.has name = true then some (.context name) else none
  | _ => none

/-- What a macro of the file in the private table was before. -/
def fromSymbol : Expr → Option Expr
  | .symbol key => if key.file = x.file then some (.context key.name) else none
  | _ => none

lemma restores_qualifies (handle : String) :
    Expr.Restores (x.Qualifies handle) (x.fromMember handle) where
  reference {r r'} hr := by
    cases hr with
    | param name => rfl
    | context _ _ => rfl
    | sibling hname => simp [Expr.replace, fromMember, hname]
  other {e e'} h he := by
    cases h with
    | reference hr => cases hr <;> exact absurd (by constructor) he
    -- only a sibling refers to the namespace, and it is the member itself
    | @member t t' name ht =>
      cases t' with
      | context root =>
        have hroot : root ≠ handle := by
          cases ht with
          | reference hr =>
            cases hr with
            | context _ hne => exact hne
        simp [fromMember, hroot]
      | _ => rfl
    | _ => rfl

lemma restores_hides (selected : List String) :
    Expr.Restores (x.Hides selected) x.fromSymbol where
  reference {r r'} hr := by
    cases hr with
    | param name => rfl
    | context _ => rfl
    | sibling _ _ => simp [Expr.replace, fromSymbol, key]
  other {e e'} h he := by
    cases h with
    | reference hr => cases hr <;> exact absurd (by constructor) he
    | _ => rfl

lemma relinks_qualifies (handle : String) :
    Relinks (Expr.Compiled (· ≠ handle)) (x.Qualifies handle) (x.memberOf handle) where
  reference {e e'} he := by
    cases he with
    | param name => exact .reference (.param name)
    | @context name hne =>
      by_cases hname : x.has name = true
      · have hf : x.memberOf handle (.context name) = some (.member (.context handle) name) := by
          rw [memberOf, if_pos hname]
        rw [Expr.replace_of_some hf]
        exact .reference (.sibling hname)
      · have hf : x.memberOf handle (.context name) = none := by rw [memberOf, if_neg hname]
        rw [(Expr.IsReference.context name).replace_eq hf]
        exact .reference (.context hname hne)
  other := (x.changes_memberOf handle).relinked

lemma relinks_hides (selected : List String) :
    Relinks (Expr.Compiled fun _ => True) (x.Hides selected) (x.symbolOf selected) where
  reference {e e'} he := by
    cases he with
    | param name => exact .reference (.param name)
    | @context name _ =>
      by_cases hname : x.has name = true ∧ name ∉ selected
      · have hf : x.symbolOf selected (.context name) = some (.symbol (x.key name)) := by
          simp [symbolOf, hname]
        rw [Expr.replace_of_some hf]
        exact .reference (.sibling hname.1 hname.2)
      · have hf : x.symbolOf selected (.context name) = none := by
          simpa [symbolOf] using hname
        rw [(Expr.IsReference.context name).replace_eq hf]
        exact .reference (.context (by simpa using hname))
  other := (x.changes_symbolOf selected).relinked

end Exports

/-! ### Compiled macros -/

section Compiled

variable {u : FileScope} {params : List String} {allowed : String → Prop}

/-- What is read from a template refers to parameters and to entries of the context. -/
lemma Expr.IsSource.rel_compiled {e : Expr} (he : e.IsSource)
    (h : ∀ name, .context name ∈ (FileScope.resolve params e).references → allowed name) :
    Expr.Rel (Expr.Compiled allowed) (FileScope.resolve params e) (FileScope.resolve params e) := by
  refine rel_of_references ?_
  rw [FileScope.resolve, he.references_resolve] at h ⊢
  refine List.forall_mem_map.2 fun name hname => ?_
  have hlocated (heq : located params.contains name = .context name) : allowed name :=
    h name (List.mem_map.2 ⟨name, hname, heq⟩)
  rw [located] at hlocated ⊢
  split
  next => exact .param name
  next hparam => exact .context (hlocated (if_neg hparam))

/-- Nodes that import nothing become code that does so too. -/
lemma FileScope.Compiles.respelled {ns : List Node} {is : List Instr} (h : u.Compiles params ns is)
    (hns : ∀ n ∈ ns, n.SelfContained)
    (hallowed : ∀ name, .context name ∈ allReferences is → allowed name) :
    Code.Respelled (Expr.Compiled allowed) is is := by
  induction h with
  | nil _ => exact .nil
  | text s _ ih => exact .text s (ih (fun n hn => hns n (List.mem_cons_of_mem _ hn)) hallowed)
  | output ho _ ih =>
    exact .output (ho.rel_compiled fun name hname => hallowed name (List.mem_append_left _ hname))
      (ih (fun n hn => hns n (List.mem_cons_of_mem _ hn))
        fun name hname => hallowed name (List.mem_append_right _ hname))
  | @definition params _ _ _ _ _ sig _ _ hsig _ _ ihbody ih =>
    rw [List.forall_mem_cons] at hns
    cases hns.1 with
    | tag _ _ hcontent =>
      have hdefinition (name : String) (hname : .context name ∈ (sig.params.map fun p =>
          (⟨p.name, p.default.map fun d => resolve (sig.params.map (·.name) ++ params) d.expr⟩ :
            Param)).flatMap Param.references) : allowed name :=
        hallowed name (List.mem_append_left _ (List.mem_append_left _ hname))
      refine .define _ _ _ ?_ (ihbody hcontent fun name hname => hallowed name
        (List.mem_append_left _ (List.mem_append_right _ hname)))
        (ih hns.2 fun name hname => hallowed name (List.mem_append_right _ hname))
      refine List.forall₂_map_right_iff.2 (List.forall₂_map_left_iff.2
        (List.forall₂_same.2 fun p hp => ⟨rfl, ?_⟩))
      have hdefault (name : String) (hname : .context name ∈ Param.references
          ⟨p.name, p.default.map fun d =>
            resolve (sig.params.map (·.name) ++ params) d.expr⟩) : allowed name :=
        hdefinition name (List.mem_flatMap.2 ⟨_, List.mem_map.2 ⟨p, hp, rfl⟩, hname⟩)
      show Option.Rel _ (p.default.map _) (p.default.map _)
      cases hd : p.default with
      | none => exact .none
      | some d =>
        rw [hd] at hdefault
        exact .some ((hsig p hp d hd).rel_compiled hdefault)
  | callBlock _ _ he _ _ ihbody ih =>
    rw [List.forall_mem_cons] at hns
    cases hns.1 with
    | tag _ _ hcontent =>
      exact .callBlock _ (ihbody hcontent fun name hname => hallowed name
          (List.mem_append_left _ (List.mem_append_left _ hname)))
        (he.rel_compiled fun name hname => hallowed name
          (List.mem_append_left _ (List.mem_append_right _ hname)))
        (ih hns.2 fun name hname => hallowed name (List.mem_append_right _ hname))
  | importAll hkind =>
    cases (List.forall_mem_cons.1 hns).1 with
    | tag hall _ _ => exact absurd (TagSet.name_of_find? hkind) hall
  | importNames hkind =>
    cases (List.forall_mem_cons.1 hns).1 with
    | tag _ hnames _ => exact absurd (TagSet.name_of_find? hkind) hnames

/-- A fragment with a definition has been made from a tag that defines the macro. -/
lemma FileScope.definition_of_fragment {n : Node} {name : String} {is : List Instr}
    (hf : u.fragment n = .ok (.definition name is)) :
    ∃ head content sig, n = .tag head content ∧ head.args = .definition sig ∧ name = sig.name ∧
      u.node [] n = .ok is := by
  have hnode := node_of_fragment hf
  rw [fragment, hnode] at hf
  cases n with
  | text s => cases hf
  | output o => cases hf
  | tag head content =>
    cases hargs : head.args with
    | definition sig =>
      simp only [hargs] at hf
      cases hf
      exact ⟨head, content, sig, rfl, hargs, rfl, hnode⟩
    | _ =>
      simp only [hargs] at hf
      cases hf

/-- A tag that defines a macro becomes its definition. -/
lemma FileScope.define_of_node {head : TagHead} {content : List Node} {sig : Signature}
    {is : List Instr} (hargs : head.args = .definition sig)
    (hn : u.node params (.tag head content) = .ok is) :
    ∃ m : Macro, m.name = sig.name ∧ m.file = u.file.name ∧
      is = [.define (.context sig.name) m] := by
  rw [node] at hn
  simp only [hargs] at hn
  split at hn <;> try cases hn
  obtain ⟨body, _, hn⟩ := ok_of_bind hn
  cases hn
  exact ⟨_, rfl, rfl, rfl⟩

end Compiled

/-- So a fragment that defines a macro consists of the definition. -/
lemma Compiler.definition_of_imported {c : Compiler} {page : SourceFile} {path name : String}
    {fs : List Fragment} (himported : (c.scope page).imported path = .ok (name, fs)) :
    ∀ k is, .definition k is ∈ fs → ∃ m : Macro, m.name = k ∧ is = [.define (.context k) m] := by
  obtain ⟨room, file, ns, _, _, _, _, _, hfs⟩ := load_of_fragments himported
  intro k is hmem
  obtain ⟨n, hn⟩ := FileScope.forall_fragments
    (P := fun f => ∃ n, FileScope.fragment _ n = .ok f) (fun n _ f hf => ⟨n, hf⟩) hfs _ hmem
  obtain ⟨head, content, sig, rfl, hargs, rfl, hnode⟩ := FileScope.definition_of_fragment hn
  obtain ⟨m, hm, _, his⟩ := FileScope.define_of_node hargs hnode
  exact ⟨m, hm, his⟩

/-- Each fragment that defines a macro consists of the definition of a macro of the file. -/
def Exports.Defines (x : Exports) (fs : List Fragment) : Prop :=
  ∀ k is, .definition k is ∈ fs →
    x.has k = true ∧ ∃ m : Macro, m.name = k ∧ is = [.define (.context k) m]

lemma Exports.Defines.tail {x : Exports} {f : Fragment} {fs : List Fragment}
    (h : x.Defines (f :: fs)) : x.Defines fs :=
  fun k is hk => h k is (List.mem_cons_of_mem f hk)

/-- The fragments of an imported file define macros of the file. -/
lemma Compiler.defines_of_imported {c : Compiler} {page : SourceFile} {path name : String}
    {fs : List Fragment} (himported : (c.scope page).imported path = .ok (name, fs)) :
    (Exports.ofFragments name fs).Defines fs := fun k is hk =>
  ⟨Exports.has_ofFragments.2 ⟨is, hk⟩, definition_of_imported himported k is hk⟩

/-! ### Linked macros -/

/-- No macro at the top level of the file, if it can be read, imports anything. -/
def Compiler.MacrosSelfContained (c : Compiler) (file : SourceFile) : Prop :=
  ∀ ns, c.nodes file = .ok ns → ∀ head content sig, .tag head content ∈ ns →
    head.args = .definition sig → Node.SelfContained (.tag head content)

namespace Exports

/-- A macro of the file as it was, and in the namespace `handle`. The name of the namespace is left
in it only where the macros of the file have been qualified. -/
structure Qualified (x : Exports) (handle : String) (m m' : Macro) : Prop where
  respelled : m.Respelled (x.Qualifies handle) m'
  gone : ∀ name, x.has name = true → .context name ∈ m'.references → name = handle
  restored : m'.replace (x.fromMember handle) = m

/-- A macro of the file as it was, and after the macros that are not selected have been hidden. -/
structure Selected (x : Exports) (selected : List String) (m m' : Macro) : Prop where
  respelled : m.Respelled (x.Hides selected) m'
  gone : ∀ name, x.has name = true → name ∉ selected → .context name ∉ m'.references
  restored : m'.replace x.fromSymbol = m

variable {x : Exports} {name : String} {m : Macro}

lemma intoSpace_define (hx : x.has name = true) (hm : m.name = name) (handle : String) :
    x.intoSpace handle [.define (.context name) m] =
      [.define (.member handle name) (m.replace (x.memberOf handle))] := by
  subst hm
  simp only [intoSpace, List.map_cons, List.map_nil, rebind, hx, if_true]
  rfl

lemma selecting_define (hx : x.has name = true) (hm : m.name = name) (selected : List String) :
    x.selecting selected [.define (.context name) m] =
      [.define (if name ∈ selected then .context name else .hidden (x.key name))
        (m.replace (x.symbolOf selected))] := by
  subst hm
  simp only [selecting, List.map_cons, List.map_nil, rebind, hx, if_true, selectedBinding,
    List.contains_iff_mem]
  rfl

lemma qualified_of_respelled {handle : String} {m' : Macro}
    (h : m.Respelled (x.Qualifies handle) m') : x.Qualified handle m m' where
  respelled := h
  gone other hother hmem := by
    obtain ⟨r, q, hr, hmem⟩ := h.replaces _ hmem
    cases hr with
    | param _ => simp [Expr.references] at hmem
    | context hnot _ =>
      obtain rfl : other = _ := by simpa [Expr.references] using hmem
      exact absurd hother hnot
    | sibling _ => simpa [Expr.references] using hmem
  restored := h.restore (x.restores_qualifies handle)

lemma selected_of_respelled {selected : List String} {m' : Macro}
    (h : m.Respelled (x.Hides selected) m') : x.Selected selected m m' where
  respelled := h
  gone other hother hnot hmem := by
    obtain ⟨r, q, hr, hmem⟩ := h.replaces _ hmem
    cases hr with
    | param _ => simp [Expr.references] at hmem
    | context hselected =>
      obtain rfl : other = _ := by simpa [Expr.references] using hmem
      exact hnot (hselected hother)
    | sibling _ _ => simp [Expr.references] at hmem
  restored := h.restore (x.restores_hides selected)

end Exports

/-- **Linking is complete and exact.** Let an imported file have macros that import nothing. Then
each of them is bound in a namespace under its own name, with all references to macros of the file
qualified and nothing else changed, as long as it does not refer to the entry that the namespace
goes to; and if macros are selected, it is bound in the context or else in the private table, with
all references to the macros that are not selected hidden and nothing else changed. Either way what
it was before can be restored. -/
theorem linking_exact {c : Compiler} {room : Nat} {chain : List String} {path : String}
    {file : SourceFile} {fragments : List Fragment} (hload : c.load chain.getLast? path = .ok file)
    (h : c.fragments room chain path = .ok (file.name, fragments))
    (hmacros : c.MacrosSelfContained file) :
    let x := Exports.ofFragments file.name fragments
    (∀ name, x.has name = true ↔ ∃ is, .definition name is ∈ fragments) ∧
    ∀ name is, .definition name is ∈ fragments → ∃ m : Macro, is = [.define (.context name) m] ∧
      (∀ handle, .context handle ∉ m.references → ∃ m',
        x.intoSpace handle is = [.define (.member handle name) m'] ∧ x.Qualified handle m m') ∧
      ∀ selected, ∃ m', x.selecting selected is =
          [.define (if name ∈ selected then .context name else .hidden ⟨file.name, name⟩) m'] ∧
        x.Selected selected m m' := by
  intro x
  have hhas (name : String) : x.has name = true ↔ ∃ is, .definition name is ∈ fragments :=
    Exports.has_ofFragments
  refine ⟨hhas, fun name is hdefinition => ?_⟩
  obtain ⟨room', file', ns, _, hload', _, _, hns, hfs⟩ := Compiler.load_of_fragments h
  obtain rfl : file' = file := Except.ok.inj (hload'.symm.trans hload)
  obtain ⟨n, hn, hfragment⟩ := FileScope.forall_fragments
    (P := fun f => ∃ n ∈ ns, FileScope.fragment _ n = .ok f)
    (fun n hn f hf => ⟨n, hn, hf⟩) hfs _ hdefinition
  obtain ⟨head, content, sig, rfl, hargs, rfl, hnode⟩ := FileScope.definition_of_fragment hfragment
  obtain ⟨m, hm, _, rfl⟩ := FileScope.define_of_node hargs hnode
  have hname : x.has sig.name = true := (hhas sig.name).2 ⟨_, hdefinition⟩
  -- what the macro was compiled from imports nothing
  have hcompiles := FileScope.Compiles.cons (Compiler.legible_of_nodes hns _ hn) hnode (.nil [])
  have hself {allowed : String → Prop} (hallowed : ∀ k, .context k ∈ m.references → allowed k) :
      m.Respelled (Expr.Compiled allowed) m := by
    refine Macro.respelled_of_define (hcompiles.respelled
      (List.forall_mem_singleton.2 (hmacros ns hns head content sig hn hargs)) fun k hk => ?_)
    exact hallowed k (by simpa [allReferences, Instr.references] using hk)
  refine ⟨m, rfl, fun handle hhandle => ⟨_, Exports.intoSpace_define hname hm handle, ?_⟩,
    fun selected => ⟨_, Exports.selecting_define hname hm selected, ?_⟩⟩
  · refine Exports.qualified_of_respelled ((hself ?_).replace (x.relinks_qualifies handle))
    rintro k hk rfl
    exact hhandle hk
  · exact Exports.selected_of_respelled
      ((hself fun _ _ => trivial).replace (x.relinks_hides selected))

namespace Greeting

/-- The macro `hi` of the file, whose default calls the macro `b`. -/
def hi : Macro :=
  ⟨"hi", [⟨"name", none⟩, ⟨"n", some (.call (.context "b") [.param "name"] [])⟩],
    [.text "Hi ", .output (.param "n")], "lib"⟩

/-- The exports of the file. -/
def exports : Exports :=
  .ofFragments "lib" (compiled.map (Macro.fragment "lib"))

lemma library_selfContained : compiler.MacrosSelfContained ⟨"lib", macros⟩ := by
  intro ns hns head content sig hmem _
  rw [library_read] at hns
  cases hns
  have hall : "macro" ≠ TagKind.importAll.name := by decide
  have hnames : "macro" ≠ TagKind.importNames.name := by decide
  simp only [definitions, List.mem_cons, Node.tag.injEq, List.not_mem_nil, or_false] at hmem
  obtain ⟨rfl, rfl⟩ | ⟨rfl, rfl⟩ := hmem
  all_goals
    refine .tag hall hnames ?_
    simp [Node.SelfContained.text, Node.SelfContained.output]

/-- The macro in a namespace, and when it is selected. -/
theorem greeting_linked_exactly :
    compiler.load (some "page") "lib" = .ok ⟨"lib", macros⟩ ∧
    compiler.fragments compiler.room ["page"] "lib" =
      .ok ("lib", compiled.map (Macro.fragment "lib")) ∧
    compiler.MacrosSelfContained ⟨"lib", macros⟩ ∧ .context "w" ∉ hi.references ∧
    (∃ m', exports.intoSpace "w" [.define (.context "hi") hi] = [.define (.member "w" "hi") m'] ∧
      exports.Qualified "w" hi m') ∧
    ∃ m', exports.selecting ["hi"] [.define (.context "hi") hi] = [.define (.context "hi") m'] ∧
      exports.Selected ["hi"] hi m' := by
  have hload : compiler.load ["page"].getLast? "lib" = .ok ⟨"lib", macros⟩ := library_loaded
  have hexact := linking_exact hload (library_imported "") library_selfContained
  have hmem : Fragment.definition "hi" [.define (.context "hi") hi] ∈
      compiled.map (Macro.fragment "lib") :=
    List.mem_cons_of_mem _ List.mem_cons_self
  have hhandle : .context "w" ∉ hi.references := by
    simp [hi, Macro.references, Param.references, allReferences, Instr.references,
      Expr.references, Expr.itemReferences, Expr.entryReferences]
  obtain ⟨m, hm, hspace, hselected⟩ := hexact.2 "hi" _ hmem
  cases hm
  exact ⟨library_loaded, library_imported "", library_selfContained, hhandle,
    hspace "w" hhandle, hselected ["hi"]⟩

end Greeting

end Stencil
