import Stencil.Proofs.Hygiene
import Stencil.Proofs.Relocation

/-!
Other names for entries of the context. `Translation.permuting` gives the entries other names and
leaves parameters, members and the private table alone. Code corresponds to itself under a renaming
if the renaming fixes the names that the code uses: those of the entries that it reads, that it puts
into the context, and that it removes from there, which are those of its parameters.

Linking replaces references, so that the names in those need not be fixed. `Instr.pinned` lists the
names that are **pinned** in an instruction: they are there whatever is replaced. An imported file
**avoids** names if neither what it imports in turn nor what it shows uses them, and its macros at
most for referring to each other (`Fragment.Avoids`). What is linked from such a file corresponds to
itself, linked in another way, if the places of its macros correspond (`Fragment.code_bound`).
-/

namespace Stencil

/-! ### Renamed references -/

/-- A reference, and the one with another name for the entry of the context. -/
inductive Expr.Renamed (σ : Equiv.Perm String) : Expr → Expr → Prop
  | param (name : String) : Renamed σ (.param name) (.param name)
  | context (name : String) : Renamed σ (.context name) (.context (σ name))
  | symbol (key : Symbol) : Renamed σ (.symbol key) (.symbol key)

/-- Entries of the context have other names. All places of code are alike. -/
def Translation.permuting (σ : Equiv.Perm String) : Translation where
  Env := Unit
  enter _ _ := ()
  inSpace _ := ()
  fits _ _ := True
  ref _ := Expr.Renamed σ
  name := σ
  error _ _ := True

variable {σ : Equiv.Perm String}

lemma Translation.permuting_lawful (hcaller : σ callerName = callerName)
    (hkwargs : σ kwargsName = kwargsName) : (permuting σ).Lawful where
  caller := hcaller
  kwargs := hkwargs
  inSpace _ := trivial
  enter _ _ := trivial
  reference := by
    intro _ e e' scope scope' s s' he _ hscope hs
    cases he with
    | param name => exact ⟨_, _, .getD (hscope.get? name), fun _ _ => ⟨rfl, rfl⟩⟩
    | context name => exact ⟨_, _, .getD (hs.context name), fun _ _ => ⟨rfl, rfl⟩⟩
    | symbol key => exact ⟨_, _, .getD (hs.symbols key), fun _ _ => ⟨rfl, rfl⟩⟩
  notCallable _ _ := trivial
  callDepth _ := trivial
  error_refl _ := trivial

/-! ### Names in code -/

/-- The name of the entry of the context that an expression refers to. -/
def Expr.entry? : Expr → Option String
  | .context name => some name
  | _ => none

/-- The names of the entries of the context that are referred to. -/
def entriesRead (references : List Expr) : List String :=
  references.filterMap Expr.entry?

mutual

/-- The names in the context that an instruction uses, whatever is replaced in it: those of the
entries that it puts there, of parameters, and inside of a namespace of the entries it reads. -/
def Instr.pinned : Instr → List String
  | .text _ => []
  | .output _ => []
  | .define target m => target.root?.toList ++ m.pinned
  | .callBlock body _ _ => allPinned body
  | .bindSpace handle members markup =>
    handle :: (allPinned members ++ entriesRead (allReferences members) ++
      (allPinned markup ++ entriesRead (allReferences markup)))

/-- The names in the context that a macro uses, whatever is replaced in it. -/
def Macro.pinned : Macro → List String
  | ⟨_, params, body, _⟩ => params.map (·.name) ++ allPinned body

/-- The names in the context that instructions use, whatever is replaced in them. -/
def allPinned : List Instr → List String
  | [] => []
  | i :: rest => i.pinned ++ allPinned rest

end

section Names

variable {i : Instr} {is : List Instr} {r : Expr} {params : List String} {file : String}

lemma mem_entriesRead {rs : List Expr} {n : String} : n ∈ entriesRead rs ↔ .context n ∈ rs := by
  rw [entriesRead, List.mem_filterMap]
  constructor
  · rintro ⟨r, hr, hn⟩
    cases r <;> cases hn
    exact hr
  · exact fun h => ⟨_, h, rfl⟩

lemma mem_allReferences : r ∈ allReferences is ↔ ∃ i ∈ is, r ∈ i.references := by
  induction is with
  | nil => simp [allReferences]
  | cons i rest ih => simp [allReferences, ih]

/-- Compiled code has no variables whose places have not been determined. -/
lemma Instr.Scoped.known (h : i.Scoped file params) :
    ∀ r ∈ i.references, ∃ params, r.Known params := by
  induction h with
  | text s => exact fun _ hr => absurd hr List.not_mem_nil
  | output he => exact fun r hr => ⟨_, he r hr⟩
  | @define _ _ m target hdefaults _ ih =>
    obtain ⟨name, ps, body, written⟩ := m
    refine List.forall_mem_append.2 ⟨List.forall_mem_flatMap.2 fun p hp r hr => ?_, fun r hr => ?_⟩
    · rw [Param.references] at hr
      cases hd : p.default with
      | none =>
        rw [hd] at hr
        exact absurd hr List.not_mem_nil
      | some e =>
        rw [hd] at hr
        exact ⟨_, hdefaults p hp e hd r hr⟩
    · obtain ⟨j, hj, hr⟩ := mem_allReferences.1 hr
      exact ih j hj r hr
  | callBlock source _ he ih =>
    refine List.forall_mem_append.2 ⟨fun r hr => ?_, fun r hr => ⟨_, he r hr⟩⟩
    obtain ⟨j, hj, hr⟩ := mem_allReferences.1 hr
    exact ih j hj r hr
  | bindSpace handle _ _ _ _ => exact fun _ hr => absurd hr List.not_mem_nil

/-- A reference corresponds to itself if its name is fixed. -/
lemma Expr.Known.renamed (h : r.Known params) (hfixed : ∀ n, r = .context n → σ n = n) :
    Renamed σ r r := by
  cases h with
  | param _ => exact .param _
  | symbol key => exact .symbol key
  | context n =>
    have hcontext := Renamed.context (σ := σ) n
    rwa [hfixed n rfl] at hcontext

end Names

/-! ### Renamed code -/

section Code

variable {f g : Expr → Option Expr} {is : List Instr} {params : List String} {file : String}

/-- Replacing references in an instruction in two ways gives instructions that correspond, if what
the references become does so and what is pinned is fixed. -/
def Instr.Renames (σ : Equiv.Perm String) (i : Instr) : Prop :=
  ∀ {f g : Expr → Option Expr}, Expr.Relinked f → Expr.Relinked g → (∀ n ∈ i.pinned, σ n = n) →
    (∀ r ∈ i.references, Expr.Rel (Expr.Renamed σ) (r.replace f) (r.replace g)) →
    (Translation.permuting σ).Code () [i.replace f] [i.replace g]

lemma Translation.code_replaceAll (h : ∀ i ∈ is, i.Renames σ) (hf : Expr.Relinked f)
    (hg : Expr.Relinked g) (hpinned : ∀ n ∈ allPinned is, σ n = n)
    (href : ∀ r ∈ allReferences is, Expr.Rel (Expr.Renamed σ) (r.replace f) (r.replace g)) :
    (permuting σ).Code () (replaceAll f is) (replaceAll g is) := by
  induction is with
  | nil => exact .nil _
  | cons i rest ih =>
    rw [List.forall_mem_cons] at h
    rw [allPinned, List.forall_mem_append] at hpinned
    rw [allReferences, List.forall_mem_append] at href
    exact (h.1 hf hg hpinned.1 href.1).append (ih h.2 hpinned.2 href.2)

/-- Nothing needs to be replaced. -/
lemma Translation.code_self (h : ∀ i ∈ is, i.Renames σ) (hscoped : ∀ i ∈ is, i.Scoped file params)
    (hpinned : ∀ n ∈ allPinned is, σ n = n)
    (hread : ∀ n ∈ entriesRead (allReferences is), σ n = n) : (permuting σ).Code () is is := by
  have hnone : replaceAll (fun _ => none) is = is :=
    (replaceAll_eq_self_iff Expr.changes_none is).2 fun _ _ => rfl
  rw [← hnone]
  refine code_replaceAll h (fun _ => rfl) (fun _ => rfl) hpinned fun r hr => ?_
  rw [Expr.replace_none]
  obtain ⟨i, hi, hmem⟩ := mem_allReferences.1 hr
  obtain ⟨_, hknown⟩ := (hscoped i hi).known r hmem
  exact .reference (hknown.renamed fun n hn => hread n (mem_entriesRead.2 (hn ▸ hr)))

/-- Replacing references in a macro in two ways gives macros that correspond, wherever they go. -/
lemma Translation.code_define {m : Macro} (h : ∀ i ∈ m.body, i.Renames σ) (hf : Expr.Relinked f)
    (hg : Expr.Relinked g) (hpinned : ∀ n ∈ m.pinned, σ n = n)
    (href : ∀ r ∈ m.references, Expr.Rel (Expr.Renamed σ) (r.replace f) (r.replace g))
    (target : Binding) : (permuting σ).Code () [.define target (m.replace f)]
      [.define (target.rename σ) (m.replace g)] := by
  obtain ⟨name, ps, body, written⟩ := m
  rw [Macro.pinned, List.forall_mem_append] at hpinned
  rw [Macro.references, List.forall_mem_append] at href
  exact .define target (Param.rel_replaceBoth hf hg href.1)
    (List.forall_mem_map.2 fun q hq => hpinned.1 _ (List.mem_map.2 ⟨q, hq, rfl⟩))
    (code_replaceAll h hf hg hpinned.2 href.2) (.nil _)

/-- Compiled code depends on the context by the names that it uses only. -/
lemma Instr.Scoped.renames {i : Instr} (h : i.Scoped file params) : i.Renames σ := by
  induction h with
  | text s => exact fun _ _ _ _ => .text s (.nil _)
  | output _ =>
    exact fun hf hg _ href => .output (Expr.rel_replaceBoth_of_references hf hg href) (.nil _)
  | define target _ _ ih =>
    intro f g hf hg hpinned href
    rw [pinned, List.forall_mem_append] at hpinned
    have hdefine := Translation.code_define (fun i hi => ih i hi) hf hg hpinned.2 href target
    have htarget : target.rename σ = target := by
      cases target with
      | context name => exact congrArg Binding.context (hpinned.1 name List.mem_cons_self)
      | member handle name =>
        exact congrArg (Binding.member · name) (hpinned.1 handle List.mem_cons_self)
      | hidden key => rfl
    rwa [htarget] at hdefine
  | callBlock source _ _ ih =>
    intro f g hf hg hpinned href
    rw [references, List.forall_mem_append] at href
    exact .callBlock source source
      (Translation.code_replaceAll (fun i hi => ih i hi) hf hg hpinned href.1)
      (Expr.rel_replaceBoth_of_references hf hg href.2) (.nil _)
  | bindSpace handle hmembers hmarkup ihmembers ihmarkup =>
    intro f g _ _ hpinned _
    rw [pinned, List.forall_mem_cons, List.forall_mem_append, List.forall_mem_append,
      List.forall_mem_append] at hpinned
    obtain ⟨hhandle, ⟨hmembersPinned, hmembersRead⟩, hmarkupPinned, hmarkupRead⟩ := hpinned
    have hspace := Translation.Code.bindSpace (T := .permuting σ) (E := ()) handle
      (Translation.code_self (fun i hi => ihmembers i hi) hmembers hmembersPinned hmembersRead)
      (Translation.code_self (fun i hi => ihmarkup i hi) hmarkup hmarkupPinned hmarkupRead)
      (.nil _)
    have hname : (Translation.permuting σ).name handle = handle := hhandle
    rwa [hname] at hspace

/-- Compiled code corresponds to itself if all names that it uses are fixed. -/
lemma Translation.code_of_fixed (hscoped : ∀ i ∈ is, i.Scoped file params)
    (hfixed : ∀ n ∈ allPinned is ++ entriesRead (allReferences is), σ n = n) :
    (permuting σ).Code () is is := by
  rw [List.forall_mem_append] at hfixed
  exact code_self (fun i hi => (hscoped i hi).renames) hscoped hfixed.1 hfixed.2

end Code

/-! ### Linked code -/

/-- The fragment does not use any of the names in the context, except that the macros of the file
may refer to each other. -/
inductive Fragment.Avoids (x : Exports) (names : List String) : Fragment → Prop
  | imported {is : List Instr} :
      (∀ n ∈ allPinned is ++ entriesRead (allReferences is), n ∉ names) →
      Avoids x names (.imported is)
  | definition {own : String} {m : Macro} : (∀ n ∈ m.pinned, n ∉ names) →
      (∀ n ∈ entriesRead m.references, x.has n = true ∨ n ∉ names) →
      Avoids x names (.definition own [.define (.context own) m])
  | markup {is : List Instr} :
      (∀ n ∈ allPinned is ++ entriesRead (allReferences is), n ∉ names) →
      Avoids x names (.markup is)

section Linked

variable {x : Exports} {names : List String} {fragments : List Fragment} {file : String}
  (hσ : ∀ n, n ∉ names → σ n = n)
  (hscoped : ∀ f ∈ fragments, ∀ i ∈ f.code, i.Scoped file [])
  (havoids : ∀ f ∈ fragments, f.Avoids x names)

include hσ hscoped havoids

/-- What fragments bind corresponds if the places of the macros do. -/
lemma Translation.code_bound {f g : Expr → Option Expr} {target target' : String → Binding}
    (hhas : ∀ own is, .definition own is ∈ fragments → x.has own = true) (hf : Expr.Moves f)
    (hg : Expr.Moves g) (htarget : ∀ n, target' n = (target n).rename σ)
    (href : ∀ n, x.has n = true ∨ σ n = n →
      Expr.Rel (Expr.Renamed σ) ((Expr.context n).replace f) ((Expr.context n).replace g)) :
    (permuting σ).Code ()
      (fragments.flatMap (Fragment.bound fun is => replaceAll f (is.map (x.rebind target))))
      (fragments.flatMap (Fragment.bound fun is => replaceAll g (is.map (x.rebind target')))) := by
  induction fragments with
  | nil => exact .nil _
  | cons fragment rest ih =>
    rw [List.forall_mem_cons] at hscoped havoids
    refine Code.append ?_
      (ih hscoped.2 havoids.2 fun own is hmem => hhas own is (List.mem_cons_of_mem _ hmem))
    cases havoids.1 with
    | imported hfixed => exact code_of_fixed hscoped.1 fun n hn => hσ n (hfixed n hn)
    | markup _ => exact .nil _
    | @definition own m hpinned hread =>
      rw [Fragment.bound, Fragment.bound, List.map_singleton, List.map_singleton, Exports.rebind,
        Exports.rebind, if_pos (hhas own _ List.mem_cons_self),
        if_pos (hhas own _ List.mem_cons_self), htarget]
      have hm : Instr.Scoped file [] (.define (.context own) m) :=
        hscoped.1 _ List.mem_cons_self
      refine code_define (fun i hi => ?_) hf.relinked hg.relinked (fun n hn => hσ n (hpinned n hn))
        (fun r hr => ?_) _
      · cases hm with
        | define _ _ hbody => exact (hbody i hi).renames
      · obtain ⟨_, hknown⟩ := hm.known r hr
        cases hknown with
        | context n => exact href n ((hread n (mem_entriesRead.2 hr)).imp_right (hσ n))
        | param name =>
          rw [Expr.replace, Expr.replace, hf.other (by simp), hg.other (by simp)]
          exact .reference (.param _)
        | symbol key =>
          rw [Expr.replace, Expr.replace, hf.other (by simp), hg.other (by simp)]
          exact .reference (.symbol key)

/-- What the file shows corresponds to itself. -/
lemma Translation.code_markups :
    (permuting σ).Code () (Fragment.markups fragments) (Fragment.markups fragments) := by
  induction fragments with
  | nil => exact .nil _
  | cons fragment rest ih =>
    rw [List.forall_mem_cons] at hscoped havoids
    have hrest := ih hscoped.2 havoids.2
    cases havoids.1 with
    | imported _ => exact hrest
    | definition _ _ => exact hrest
    | markup hfixed =>
      exact (code_of_fixed hscoped.1 fun n hn => hσ n (hfixed n hn)).append hrest

end Linked

section Import

variable {names : List String} {fragments : List Fragment} {file : String}
  (hσ : ∀ n, n ∉ names → σ n = n)
  (hscoped : ∀ f ∈ fragments, ∀ i ∈ f.code, i.Scoped file [])
  (havoids : ∀ f ∈ fragments, f.Avoids (.ofFragments file fragments) names)

include hσ hscoped havoids

/-- A namespace may have another name. -/
lemma Translation.code_members (handle : String) :
    (permuting σ).Code () ((Exports.ofFragments file fragments).members handle fragments)
      ((Exports.ofFragments file fragments).members (σ handle) fragments) := by
  let x := Exports.ofFragments file fragments
  rw [x.members_eq_flatMap, x.members_eq_flatMap]
  refine code_bound hσ hscoped havoids (fun _ is his => Exports.has_ofFragments.2 ⟨is, his⟩)
    (x.moves_memberOf handle) (x.moves_memberOf (σ handle)) (fun _ => rfl) fun n hn => ?_
  rw [Expr.replace, Expr.replace, Exports.memberOf, Exports.memberOf]
  by_cases hhas : x.has n = true
  · rw [if_pos hhas, if_pos hhas]
    exact .member n (.reference (.context handle))
  · rw [if_neg hhas, if_neg hhas]
    have hcontext := Expr.Renamed.context (σ := σ) n
    rw [hn.resolve_left hhas] at hcontext
    exact .reference hcontext

/-- Macros that are imported by names that stay correspond to themselves. -/
lemma Translation.code_pick {selected : List String} (hselected : ∀ n ∈ selected, σ n = n) :
    (permuting σ).Code () ((Exports.ofFragments file fragments).pick selected fragments)
      ((Exports.ofFragments file fragments).pick selected fragments) := by
  let x := Exports.ofFragments file fragments
  rw [x.pick_eq_flatMap]
  refine code_bound hσ hscoped havoids (fun _ is his => Exports.has_ofFragments.2 ⟨is, his⟩)
    (x.moves_symbolOf selected) (x.moves_symbolOf selected) (fun n => ?_) fun n hn => ?_
  · rw [Exports.selectedBinding]
    split
    next h => exact congrArg Binding.context (hselected n (List.contains_iff_mem.1 h)).symm
    next => rfl
  · rw [Expr.replace, Exports.symbolOf]
    split
    next e he =>
      split at he
      · cases he
        exact .reference (.symbol _)
      · cases he
    next he =>
      split at he
      · cases he
      next hstays =>
        have hcontext := Expr.Renamed.context (σ := σ) n
        have hmem : x.has n = true → n ∈ selected := by simpa using hstays
        rw [hn.elim (fun hhas => hselected n (hmem hhas)) id] at hcontext
        exact .reference hcontext

end Import

end Stencil
