import Stencil.Proofs.Importing
import Stencil.Proofs.Qualification

/-!
Which places in the private table code refers to. Code is **supplied** by a set of places
(`Code.Supplied`) if each reference to the private table in it is to one of these, or to one that
the code itself has filled before: linking code comes in runs, and whatever macros a run binds may
refer to everything that the run puts into the private table.

The main result is `Compiler.supplied_of_compile`: compiled code supplies itself. An import puts the
macros that are not selected into the private table in the same run in which it binds those that
refer to them (`TagArgs.Becomes.linked`), and an import around it only adds references to what it
supplies (`Code.Supplied.replace`).
-/

namespace Stencil

/-! ### References to the private table -/

/-- All references to the private table are to the given places. -/
def Supplies (K : Set Symbol) (refs : List Expr) : Prop :=
  ∀ key, .symbol key ∈ refs → key ∈ K

/-- What an expression refers to are references. -/
lemma Expr.isReference_of_mem {e r : Expr} (h : r ∈ e.references) : r.IsReference := by
  have hrel : Expr.Rel (fun r _ => IsReference r) e e := by
    refine .refl ?_ e
    exact fun _ hr => hr
  obtain ⟨_, hr⟩ := hrel.of_mem_references (fun hr => hr) r h
  exact hr

section Supplies

variable {K K' : Set Symbol} {refs refs' : List Expr}

lemma Supplies.mono (h : Supplies K refs) (hK : K ⊆ K') : Supplies K' refs :=
  fun key hkey => hK (h key hkey)

lemma supplies_append : Supplies K (refs ++ refs') ↔ Supplies K refs ∧ Supplies K refs' := by
  simp only [Supplies, List.mem_append, or_imp, forall_and]

/-- Replacing references adds what the new ones refer to. -/
lemma Supplies.replace {f : Expr → Option Expr} {N : Set Symbol} (hf : Expr.Relinked f)
    (hN : ∀ e e', f e = some e' → Supplies N e'.references) {e : Expr}
    (h : Supplies K e.references) : Supplies (K ∪ N) (e.replace f).references := by
  intro key hkey
  rw [Expr.references_replace hf] at hkey
  obtain ⟨r, hr, hkey⟩ := List.mem_flatMap.1 hkey
  cases hfr : f r with
  | some e' =>
    rw [Expr.replace_of_some hfr] at hkey
    exact .inr (hN r e' hfr key hkey)
  | none =>
    have href : r.IsReference := Expr.isReference_of_mem hr
    rw [href.replace_eq hfr, href.references_eq, List.mem_singleton] at hkey
    exact .inl (h key (hkey ▸ hr))

end Supplies

/-! ### What linking code binds -/

mutual

/-- The macros that an instruction binds, also those in namespaces, with their places. -/
def Instr.bound : Instr → List (Binding × Macro)
  | .text _ => []
  | .output _ => []
  | .define target m => [(target, m)]
  | .callBlock _ _ _ => []
  | .bindSpace _ members _ => allBound members

/-- The macros that instructions bind, with their places. -/
def allBound : List Instr → List (Binding × Macro)
  | [] => []
  | i :: rest => i.bound ++ allBound rest

end

mutual

/-- What the namespaces show that an instruction binds. -/
def Instr.shown : Instr → List (List Instr)
  | .text _ => []
  | .output _ => []
  | .define _ _ => []
  | .callBlock _ _ _ => []
  | .bindSpace _ members markup => allShown members ++ [markup]

/-- What the namespaces show that instructions bind. -/
def allShown : List Instr → List (List Instr)
  | [] => []
  | i :: rest => i.shown ++ allShown rest

end

/-- The places in the private table that the instructions fill. -/
def hiddenIn (is : List Instr) : Set Symbol :=
  {key | .hidden key ∈ (allBound is).map Prod.fst}

section Bound

variable {is js : List Instr} {f : Expr → Option Expr}

lemma allBound_append (is js : List Instr) : allBound (is ++ js) = allBound is ++ allBound js := by
  induction is with
  | nil => rfl
  | cons i rest ih => rw [List.cons_append, allBound, allBound, ih, List.append_assoc]

lemma allShown_append (is js : List Instr) : allShown (is ++ js) = allShown is ++ allShown js := by
  induction is with
  | nil => rfl
  | cons i rest ih => rw [List.cons_append, allShown, allShown, ih, List.append_assoc]

lemma mem_allBound {i : Instr} {b : Binding × Macro} (hi : i ∈ is) (hb : b ∈ i.bound) :
    b ∈ allBound is := by
  obtain ⟨front, rest, rfl⟩ := List.append_of_mem hi
  rw [allBound_append, allBound]
  exact List.mem_append_right _ (List.mem_append_left _ hb)

lemma hiddenIn_append (is js : List Instr) : hiddenIn (is ++ js) = hiddenIn is ∪ hiddenIn js := by
  ext key
  simp [hiddenIn, allBound_append]

@[simp] lemma hiddenIn_nil : hiddenIn [] = ∅ := by
  ext key
  simp [hiddenIn, allBound]

/-- Replacing references leaves the macros in their places. -/
lemma map_fst_allBound_replaceAll (is : List Instr) :
    (allBound (replaceAll f is)).map Prod.fst = (allBound is).map Prod.fst := by
  induction is with
  | nil => rfl
  | cons i rest ih =>
    rw [replaceAll, allBound, allBound, List.map_append, List.map_append, ih]
    cases i <;> rfl

lemma hiddenIn_replaceAll (is : List Instr) : hiddenIn (replaceAll f is) = hiddenIn is := by
  rw [hiddenIn, map_fst_allBound_replaceAll, hiddenIn]

/-- It replaces them in the macros that are not in namespaces. -/
lemma mem_allBound_replaceAll {b : Binding × Macro} (h : b ∈ allBound (replaceAll f is)) :
    b ∈ allBound is ∨ ∃ m, (b.1, m) ∈ allBound is ∧ b.2 = m.replace f := by
  induction is with
  | nil => exact nomatch h
  | cons i rest ih =>
    rw [replaceAll, allBound, List.mem_append] at h
    rw [allBound, List.mem_append]
    obtain h | h := h
    · cases i with
      | define target m =>
        cases List.mem_singleton.1 h
        exact .inr ⟨m, List.mem_append_left _ (List.mem_singleton.2 rfl), rfl⟩
      | bindSpace handle members markup => exact .inl (.inl h)
      | text s => exact nomatch h
      | output e => exact nomatch h
      | callBlock body e source => exact nomatch h
    · obtain h | ⟨m, hm, heq⟩ := ih h
      · exact .inl (.inr h)
      · exact .inr ⟨m, List.mem_append_right _ hm, heq⟩

lemma allShown_replaceAll (is : List Instr) : allShown (replaceAll f is) = allShown is := by
  induction is with
  | nil => rfl
  | cons i rest ih =>
    rw [replaceAll, allShown, allShown, ih]
    cases i <;> rfl

end Bound

/-! ### Supplied code -/

/-- The places in the private table that the code refers to are among the given ones or have been
filled by the code before: a run of linking code, all of whose macros and markup may refer to
everything that the run fills. A place that is filled is that of the macro by its file and name. -/
inductive Code.Supplied : Set Symbol → List Instr → Prop
  | nil (K : Set Symbol) : Supplied K []
  | text {K : Set Symbol} {is : List Instr} (s : String) : Supplied K is →
      Supplied K (.text s :: is)
  | output {K : Set Symbol} {e : Expr} {is : List Instr} : Supplies K e.references →
      Supplied K is → Supplied K (.output e :: is)
  | callBlock {K : Set Symbol} {body : List Instr} {e : Expr} {is : List Instr} (source : String) :
      Supplied K body → Supplies K e.references → Supplied K is →
      Supplied K (.callBlock body e source :: is)
  | link {K : Set Symbol} {is rest : List Instr} : is ≠ [] → (∀ i ∈ is, i.Links) →
      (∀ b ∈ allBound is, ∀ key, b.1 = .hidden key → key = ⟨b.2.file, b.2.name⟩) →
      (∀ b ∈ allBound is, Supplies (K ∪ hiddenIn is) (b.2.params.flatMap Param.references)) →
      (∀ b ∈ allBound is, Supplied (K ∪ hiddenIn is) b.2.body) →
      (∀ markup ∈ allShown is, Supplied (K ∪ hiddenIn is) markup) →
      Supplied (K ∪ hiddenIn is) rest → Supplied K (is ++ rest)

/-- The macro refers to the given places only. -/
structure Macro.Supplied (K : Set Symbol) (m : Macro) : Prop where
  params : Supplies K (m.params.flatMap Param.references)
  body : Code.Supplied K m.body

/-- Linking code all of whose macros and markup refer to the given places only. -/
structure Linked (K : Set Symbol) (is : List Instr) : Prop where
  links : ∀ i ∈ is, i.Links
  named : ∀ b ∈ allBound is, ∀ key, b.1 = .hidden key → key = ⟨b.2.file, b.2.name⟩
  macros : ∀ b ∈ allBound is, b.2.Supplied K
  markups : ∀ markup ∈ allShown is, Code.Supplied K markup

section Supplied

variable {K K' N : Set Symbol} {is js rest : List Instr} {m : Macro} {f : Expr → Option Expr}

namespace Code.Supplied

lemma mono (h : Code.Supplied K is) (hK : K ⊆ K') : Code.Supplied K' is := by
  induction h generalizing K' with
  | nil => exact .nil K'
  | text s _ ih => exact .text s (ih hK)
  | output he _ ih => exact .output (he.mono hK) (ih hK)
  | callBlock source _ he _ ihbody ih => exact .callBlock source (ihbody hK) (he.mono hK) (ih hK)
  | @link K is rest hne hlinks hnamed hparams _ _ _ ihbody ihmarkup ih =>
    have hunion := Set.union_subset_union_left (hiddenIn is) hK
    exact .link hne hlinks hnamed (fun b hb => (hparams b hb).mono hunion)
      (fun b hb => ihbody b hb hunion) (fun markup hm => ihmarkup markup hm hunion) (ih hunion)

/-- A run of linking code in front fills what the rest refers to. -/
lemma linked (h : Linked (K ∪ hiddenIn is) is) (hrest : Code.Supplied (K ∪ hiddenIn is) rest) :
    Code.Supplied K (is ++ rest) := by
  by_cases hne : is = []
  · subst hne
    rwa [hiddenIn_nil, Set.union_empty] at hrest
  · exact .link hne h.links h.named (fun b hb => (h.macros b hb).params)
      (fun b hb => (h.macros b hb).body) h.markups hrest

lemma append (h : Code.Supplied K is) (h' : Code.Supplied K js) : Code.Supplied K (is ++ js) := by
  induction h with
  | nil => exact h'
  | text s _ ih => exact .text s (ih h')
  | output he _ ih => exact .output he (ih h')
  | callBlock source hbody he _ _ ih => exact .callBlock source hbody he (ih h')
  | link hne hlinks hnamed hparams hbody hmarkup _ _ _ ih =>
    rw [List.append_assoc]
    exact .link hne hlinks hnamed hparams hbody hmarkup (ih (h'.mono Set.subset_union_left))

end Code.Supplied

section Replace

variable (hf : Expr.Relinked f) (hN : ∀ e e', f e = some e' → Supplies N e'.references)

include hf hN

lemma Supplies.replaceParams {ps : List Param} (h : Supplies K (ps.flatMap Param.references)) :
    Supplies (K ∪ N) ((ps.map (·.replace f)).flatMap Param.references) := by
  intro key hkey
  rw [List.flatMap_map] at hkey
  obtain ⟨p, hp, hkey⟩ := List.mem_flatMap.1 hkey
  obtain ⟨name, default⟩ := p
  cases default with
  | none => exact nomatch hkey
  | some e =>
    have he : Supplies K e.references := fun k hk => h k (List.mem_flatMap.2 ⟨_, hp, hk⟩)
    exact he.replace hf hN key hkey

/-- A run stays linked if references in it are replaced and the bodies of its macros allow that. -/
lemma Linked.replace (h : Linked K is)
    (hbody : ∀ b ∈ allBound is, Code.Supplied (K ∪ N) (replaceAll f b.2.body)) :
    Linked (K ∪ N) (replaceAll f is) := by
  refine ⟨fun i hi => ?_, fun b hb key hkey => ?_, fun b hb => ?_, fun markup hm => ?_⟩
  · obtain ⟨j, hj, rfl⟩ := mem_replaceAll.1 hi
    exact (h.links j hj).replace f
  · obtain hb | ⟨⟨name, params, body, file⟩, hm, heq⟩ := mem_allBound_replaceAll hb
    · exact h.named b hb key hkey
    · rw [heq]
      exact h.named _ hm key hkey
  · obtain hb | ⟨⟨name, params, body, file⟩, hm, heq⟩ := mem_allBound_replaceAll hb
    · have hm := h.macros b hb
      exact ⟨hm.params.mono Set.subset_union_left, hm.body.mono Set.subset_union_left⟩
    · rw [heq]
      exact ⟨(h.macros _ hm).params.replaceParams hf hN, hbody _ hm⟩
  · rw [allShown_replaceAll] at hm
    exact (h.markups markup hm).mono Set.subset_union_left

/-- Replaced references ask for no more than the new ones refer to. -/
lemma Code.Supplied.replace (h : Code.Supplied K is) :
    Code.Supplied (K ∪ N) (replaceAll f is) := by
  induction h with
  | nil => exact .nil _
  | text s _ ih => exact .text s ih
  | output he _ ih => exact .output (he.replace hf hN) ih
  | callBlock source _ he _ ihbody ih => exact .callBlock source ihbody (he.replace hf hN) ih
  | @link K is rest _ hlinks hnamed hparams hbody hmarkup _ ihbody _ ih =>
    have hrun : Linked (K ∪ hiddenIn is) is :=
      ⟨hlinks, hnamed, fun b hb => ⟨hparams b hb, hbody b hb⟩, hmarkup⟩
    have hreplaced := hrun.replace hf hN ihbody
    rw [Set.union_right_comm, ← hiddenIn_replaceAll (f := f)] at hreplaced ih
    rw [replaceAll_append]
    exact .linked hreplaced ih

end Replace

end Supplied

/-! ### Compiled code -/

/-- The fragment of the file supplies itself: what is imported is a run of linking code, a macro is
one of the file, and what the file shows is code on its own. -/
inductive Fragment.Supplied (file : String) : Fragment → Prop
  | imported {is : List Instr} : Linked (hiddenIn is) is → Supplied file (.imported is)
  | definition {m : Macro} : m.file = file → m.Supplied ∅ →
      Supplied file (.definition m.name [.define (.context m.name) m])
  | markup {is : List Instr} : Code.Supplied ∅ is → Supplied file (.markup is)

namespace Exports

variable {x : Exports} {e e' : Expr}

/-- Of a namespace, an expression refers to the namespace only. -/
lemma memberOf_eq {handle : String} (h : x.memberOf handle e = some e') :
    ∃ name, e' = .member (.context handle) name := by
  cases e with
  | context name =>
    simp only [memberOf] at h
    split at h <;> cases h
    exact ⟨name, rfl⟩
  | _ => cases h

/-- References to macros that are not selected go to their places in the private table. -/
lemma symbolOf_eq {selected : List String} (h : x.symbolOf selected e = some e') :
    ∃ name, x.has name = true ∧ name ∉ selected ∧ e' = .symbol (x.key name) := by
  cases e with
  | context name =>
    simp only [symbolOf] at h
    split at h
    next hname =>
      cases h
      rw [Bool.and_eq_true, Bool.not_eq_true', List.contains_eq_mem, decide_eq_false_iff_not]
        at hname
      exact ⟨name, hname.1, hname.2, rfl⟩
    next => cases h
  | _ => cases h

end Exports

section Compiled

variable {K : Set Symbol} {file : String} {fragments : List Fragment} {is js : List Instr}

lemma Linked.mono {K' : Set Symbol} (h : Linked K is) (hK : K ⊆ K') : Linked K' is :=
  ⟨h.links, h.named, fun b hb => ⟨(h.macros b hb).params.mono hK, (h.macros b hb).body.mono hK⟩,
    fun markup hm => (h.markups markup hm).mono hK⟩

lemma linked_nil : Linked K [] :=
  ⟨List.forall_mem_nil _, List.forall_mem_nil _, List.forall_mem_nil _, List.forall_mem_nil _⟩

lemma Linked.append (h : Linked K is) (h' : Linked K js) : Linked K (is ++ js) := by
  refine ⟨List.forall_mem_append.2 ⟨h.links, h'.links⟩, ?_, ?_, ?_⟩
  · rw [allBound_append]
    exact List.forall_mem_append.2 ⟨h.named, h'.named⟩
  · rw [allBound_append]
    exact List.forall_mem_append.2 ⟨h.macros, h'.macros⟩
  · rw [allShown_append]
    exact List.forall_mem_append.2 ⟨h.markups, h'.markups⟩

/-- A definition is a run of its own. -/
lemma linked_define {target : Binding} {m : Macro} (hm : m.Supplied K)
    (hnamed : ∀ key, target = .hidden key → key = ⟨m.file, m.name⟩) :
    Linked K [.define target m] := by
  refine ⟨List.forall_mem_singleton.2 (.define target m), ?_, ?_, fun _ h => nomatch h⟩
  · exact List.forall_mem_singleton.2 hnamed
  · exact List.forall_mem_singleton.2 hm

lemma linked_define_context (name : String) {m : Macro} (hm : m.Supplied K) :
    Linked K [.define (.context name) m] :=
  linked_define hm fun _ hkey => nomatch hkey

lemma hiddenIn_bindSpace (handle : String) (members markup : List Instr) :
    hiddenIn [.bindSpace handle members markup] = hiddenIn members := by
  rw [hiddenIn, hiddenIn]
  show {key | _ ∈ (allBound members ++ []).map Prod.fst} = _
  rw [List.append_nil]

/-- So is a namespace around a run. -/
lemma linked_bindSpace {handle : String} {members markup : List Instr} (h : Linked K members)
    (hmarkup : Code.Supplied K markup) : Linked K [.bindSpace handle members markup] := by
  have hbound : allBound [.bindSpace handle members markup] = allBound members :=
    List.append_nil _
  have hshown : allShown [.bindSpace handle members markup] = allShown members ++ [markup] :=
    List.append_nil _
  refine ⟨List.forall_mem_singleton.2 (.bindSpace handle markup h.links), ?_, ?_, ?_⟩
  · rw [hbound]
    exact h.named
  · rw [hbound]
    exact h.macros
  · rw [hshown]
    exact List.forall_mem_append.2 ⟨h.markups, List.forall_mem_singleton.2 hmarkup⟩

/-- What the fragments show supplies itself. -/
lemma supplied_markups (h : ∀ f ∈ fragments, f.Supplied file) :
    Code.Supplied ∅ (Fragment.markups fragments) := by
  induction fragments with
  | nil => exact .nil ∅
  | cons f rest ih =>
    rw [List.forall_mem_cons] at h
    obtain _ | _ | ⟨hmarkup⟩ := h.1
    · exact ih h.2
    · exact ih h.2
    · exact hmarkup.append (ih h.2)

/-- What an import binds of the fragments is one run, if that run fills the places that the
references in macros of the file are replaced by. -/
lemma linked_bound {x : Exports} {f : Expr → Option Expr} {target : String → Binding}
    (h : ∀ f ∈ fragments, f.Supplied file) (hf : Expr.Relinked f)
    (hN : ∀ e e', f e = some e' → Supplies K e'.references)
    (htarget : ∀ name key, target name = .hidden key → key = ⟨file, name⟩)
    (hK : hiddenIn (fragments.flatMap
      (Fragment.bound fun is => replaceAll f (is.map (x.rebind target)))) ⊆ K) :
    Linked K (fragments.flatMap
      (Fragment.bound fun is => replaceAll f (is.map (x.rebind target)))) := by
  induction fragments with
  | nil => exact linked_nil
  | cons fragment rest ih =>
    rw [List.forall_mem_cons] at h
    rw [List.flatMap_cons, hiddenIn_append, Set.union_subset_iff] at hK
    rw [List.flatMap_cons]
    refine .append ?_ (ih h.2 hK.2)
    obtain ⟨himported⟩ | @⟨m, hfile, hm⟩ | _ := h.1
    · exact himported.mono hK.1
    · obtain ⟨params, body⟩ := hm
      have hreplaced : (m.replace f).Supplied K := by
        obtain ⟨name, ps, is, file⟩ := m
        have hps := Supplies.replaceParams hf hN params
        have his := Code.Supplied.replace hf hN body
        rw [Set.empty_union] at hps his
        exact ⟨hps, his⟩
      have hname : (m.replace f).file = file ∧ (m.replace f).name = m.name := by
        obtain ⟨name, ps, is, file⟩ := m
        exact ⟨hfile, rfl⟩
      rw [Fragment.bound, List.map_singleton, Exports.rebind]
      split
      · refine linked_define hreplaced fun key hkey => ?_
        rw [hname.1, hname.2]
        exact htarget _ _ hkey
      · exact linked_define_context _ hreplaced
    · exact linked_nil

/-- Importing macros by name puts each macro that is not selected into the private table. -/
lemma hiddenIn_pick {x : Exports} {selected : List String} {name : String}
    (hfs : ∀ f ∈ fragments, f.Supplied file) (hx : x = Exports.ofFragments file fragments)
    (hname : x.has name = true) (hselected : name ∉ selected) :
    x.key name ∈ hiddenIn (x.pick selected fragments) := by
  obtain ⟨is, hmem⟩ := Exports.has_ofFragments.1 (hx ▸ hname)
  obtain _ | @⟨m, _, _⟩ | _ := hfs _ hmem
  have hbinding : x.selectedBinding selected m.name = .hidden (x.key m.name) :=
    x.selectedBinding_eq_hidden.2 ⟨⟨rfl, hselected⟩, rfl⟩
  rw [x.pick_eq_flatMap]
  let placed : Instr := .define (.hidden (x.key m.name)) (m.replace (x.symbolOf selected))
  refine List.mem_map.2 ⟨_, mem_allBound (i := placed) (List.mem_flatMap.2 ⟨_, hmem, ?_⟩)
    (List.mem_singleton.2 rfl), rfl⟩
  show _ ∈ replaceAll _ ([Instr.define (.context m.name) m].map _)
  rw [List.map_singleton, Exports.rebind, if_pos hname, hbinding]
  exact List.mem_singleton.2 rfl

/-- **What a tag that imports a file becomes** is one run of linking code, which refers to nothing
in the private table but what it puts there itself. -/
lemma TagArgs.Becomes.linked {args : TagArgs}
    (h : args.Becomes (Exports.ofFragments file fragments) fragments is)
    (hfs : ∀ f ∈ fragments, f.Supplied file) : Linked (hiddenIn is) is := by
  let x := Exports.ofFragments file fragments
  cases h with
  | importAll h =>
    have hmembers : Linked (hiddenIn (x.members h.handle fragments))
        (x.members h.handle fragments) := by
      rw [x.members_eq_flatMap]
      refine linked_bound hfs (x.changes_memberOf h.handle).relinked (fun e e' he => ?_)
        (fun name key hkey => nomatch hkey) subset_rfl
      obtain ⟨name, rfl⟩ := x.memberOf_eq he
      exact fun key hkey => nomatch List.mem_singleton.1 hkey
    rw [hiddenIn_bindSpace]
    exact linked_bindSpace hmembers ((supplied_markups hfs).mono (Set.empty_subset _))
  | @importNames h hnames =>
    have hpick {name : String} (hname : x.has name = true) (hselected : name ∉ h.names) :
        x.key name ∈ hiddenIn (x.pick h.names fragments) :=
      hiddenIn_pick hfs rfl hname hselected
    rw [x.pick_eq_flatMap] at hpick ⊢
    refine linked_bound hfs (x.changes_symbolOf h.names).relinked (fun e e' he => ?_)
      (fun name key hkey => ?_) subset_rfl
    · obtain ⟨name, hname, hselected, rfl⟩ := x.symbolOf_eq he
      intro key hkey
      cases List.mem_singleton.1 hkey
      exact hpick hname hselected
    · obtain ⟨⟨hfile, _⟩, hname⟩ := x.selectedBinding_eq_hidden.1 hkey
      obtain ⟨f, k⟩ := key
      exact congrArg₂ _ hfile hname.symm

end Compiled

/-! ### Files -/

/-- An expression as it is written refers to no place in the private table. -/
lemma Expr.IsSource.supplies_resolve {e : Expr} (h : e.IsSource) (params : List String) :
    Supplies ∅ (FileScope.resolve params e).references := by
  intro key hkey
  rw [FileScope.resolve, h.references_resolve] at hkey
  obtain ⟨name, _, hname⟩ := List.mem_map.1 hkey
  rw [Expr.located] at hname
  split at hname <;> cases hname

/-- A macro as it is written supplies itself if its body does. -/
lemma Signature.IsSource.supplied_macro {sig : Signature} (h : sig.IsSource) (params : List String)
    {body : List Instr} (hbody : Code.Supplied ∅ body) (file : String) :
    Macro.Supplied ∅ ⟨sig.name, FileScope.params params sig, body, file⟩ := by
  refine ⟨fun key hkey => ?_, hbody⟩
  obtain ⟨q, hq, hkey⟩ := List.mem_flatMap.1 hkey
  obtain ⟨p, hp, rfl⟩ := List.mem_map.1 hq
  cases hd : p.default with
  | none =>
    simp only [Param.references, hd] at hkey
    cases hkey
  | some d =>
    simp only [Param.references, hd] at hkey
    exact (h p hp d hd).supplies_resolve params key hkey

namespace FileScope

variable {u : FileScope} (himported : ∀ path name fs, u.imported path = .ok (name, fs) →
  ∀ f ∈ fs, f.Supplied name)

include himported

/-- Code supplies itself if all that it imports does. -/
lemma Compiles.supplied {params : List String} {ns : List Node} {is : List Instr}
    (h : u.Compiles params ns is) : Code.Supplied ∅ is := by
  -- a run of linking code in front of the rest
  have hrun {is rest : List Instr} (his : Linked (hiddenIn is) is) (hrest : Code.Supplied ∅ rest) :
      Code.Supplied ∅ (is ++ rest) := by
    rw [← Set.empty_union (hiddenIn is)] at his
    exact .linked his (hrest.mono (Set.empty_subset _))
  induction h with
  | nil => exact .nil ∅
  | text s _ ih => exact .text s ih
  | output ho _ ih => exact .output (ho.supplies_resolve _) ih
  | @definition params _ _ _ _ _ sig _ _ hsig _ _ ihcontent ih =>
    have hm := hsig.supplied_macro (sig.params.map (·.name) ++ params) ihcontent u.file.name
    exact hrun ((linked_define_context sig.name hm).mono (Set.empty_subset _)) ih
  | callBlock _ _ he _ _ ihcontent ih =>
    exact .callBlock _ ihcontent (he.supplies_resolve _) ih
  | @importAll _ _ _ _ _ h _ _ _ _ hload _ ih =>
    exact hrun ((TagArgs.Becomes.importAll h).linked (himported _ _ _ hload)) ih
  | importNames _ _ hload hnames _ ih =>
    exact hrun ((TagArgs.Becomes.importNames hnames).linked (himported _ _ _ hload)) ih

/-- So do the fragments of a file. -/
lemma supplied_of_fragment {n : Node} {f : Fragment} (hlegible : n.Legible u.tags)
    (hf : u.fragment n = .ok f) : f.Supplied u.file.name := by
  rw [fragment] at hf
  obtain ⟨is, his, hf⟩ := ok_of_bind hf
  cases hf
  have hsupplied : Code.Supplied ∅ is := by
    have h := (Compiles.cons hlegible his (.nil [])).supplied himported
    rwa [List.append_nil] at h
  have himport {head : TagHead} {content : List Node} {path : String}
      (hpath : head.args.path? = some path) (his : u.node [] (.tag head content) = .ok is) :
      Linked (hiddenIn is) is := by
    obtain ⟨name, fs, hload, hbecomes⟩ := becomes_of_node hpath his
    exact hbecomes.linked (himported _ _ _ hload)
  cases hlegible with
  | text s => exact .markup hsupplied
  | output ho => exact .markup hsupplied
  | @tag head content hhead hcontent =>
    obtain ⟨word, args, line, span⟩ := head
    obtain ⟨kind, hkind, hsays⟩ := hhead
    cases hsays with
    | callBlock source he => exact .markup hsupplied
    | importAll h => exact .imported (himport rfl his)
    | importNames h => exact .imported (himport rfl his)
    | definition hsig =>
      rw [node, hkind] at his
      obtain ⟨body, hbody, his⟩ := ok_of_bind his
      cases his
      have hcompiles := compiles_of_nodes (fun n hn => hcontent n hn) hbody
      exact .definition rfl (hsig.supplied_macro _ (hcompiles.supplied himported) _)

end FileScope

namespace Compiler

variable {c : Compiler}

/-- Imported fragments supply themselves. -/
lemma supplied_of_fragments {room : Nat} {chain : List String} {path name : String}
    {fs : List Fragment} (h : c.fragments room chain path = .ok (name, fs)) :
    ∀ f ∈ fs, f.Supplied name := by
  induction h using imported_induction with
  | @step room chain path file ns fs _ _ hns hfs ih =>
    let u : FileScope := ⟨c.tags, file, c.fragments room (chain ++ [file.name])⟩
    exact FileScope.forall_fragments (u := u) (fun n hn f hf =>
      FileScope.supplied_of_fragment (fun _ _ _ => ih) (legible_of_nodes hns n hn) hf) hfs

/-- **Compiled code supplies itself**: whatever places of the private table it refers to, it has
filled before. -/
lemma supplied_of_compile {entry : SourceFile} {p : Program} (h : c.compile entry = .ok p) :
    Code.Supplied ∅ p.instrs := by
  obtain ⟨ns, _, hcompiles⟩ := compiles_of_compile h
  exact hcompiles.supplied fun _ _ _ hload => supplied_of_fragments hload

end Compiler

end Stencil
