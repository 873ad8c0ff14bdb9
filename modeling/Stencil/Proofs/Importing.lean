import Stencil.Proofs.Compiling
import Stencil.Proofs.Reach
import Stencil.Proofs.Relocation

/-!
What a tag that imports a file becomes (`TagArgs.Becomes`, `FileScope.becomes_of_node`). It is
**linking** code (`Instr.Links`): definitions, and namespaces with such code in them. Linking code
always succeeds and puts out nothing, and while it runs nothing is evaluated, called or displayed
(`exec_links`, `Moment.ofCode_of_links`).

A file is compiled by way of the files that import it (`Compiler.within`), and what it imports in
this way it also imports on its own.
-/

namespace Stencil

/-! ### Linking code -/

/-- The instruction binds macros and does nothing else. -/
inductive Instr.Links : Instr → Prop
  | define (target : Binding) (m : Macro) : Links (.define target m)
  | bindSpace (handle : String) (markup : List Instr) {members : List Instr} :
      (∀ i ∈ members, i.Links) → Links (.bindSpace handle members markup)

/-- Running instructions. -/
inductive Task.OfCode : Task → Prop
  | instr (scope : Scope) (i : Instr) : OfCode (.instr scope i)
  | code (scope : Scope) (is : List Instr) : OfCode (.code scope is)

section Links

variable {scope : Scope} {i : Instr} {is : List Instr}

/-- What each instruction does is what the list does. -/
lemma exec_of_each (h : ∀ i ∈ is, ∀ s, ∃ t, ∀ invoker, execInstr invoker scope i s = .ok "" t)
    (s : Renderer) : ∃ t, ∀ invoker, exec invoker scope is s = .ok "" t := by
  induction is generalizing s with
  | nil => exact ⟨s, fun _ => rfl⟩
  | cons i rest ih =>
    rw [List.forall_mem_cons] at h
    obtain ⟨s₁, hfirst⟩ := h.1 s
    obtain ⟨t, hrest⟩ := ih h.2 s₁
    refine ⟨t, fun invoker => ?_⟩
    rw [exec, Run.bind_of_ok (hfirst invoker), Relocation.bind_append_empty, hrest]

lemma execInstr_links (h : i.Links) (scope : Scope) (s : Renderer) :
    ∃ t, ∀ invoker, execInstr invoker scope i s = .ok "" t := by
  induction h generalizing s with
  | define target m => exact ⟨_, fun _ => rfl⟩
  | bindSpace handle markup _ ih =>
    obtain ⟨t, ht⟩ := exec_of_each (fun i hi s => ih i hi s) (s.mapContext (·.openSpace handle))
    refine ⟨t.mapContext (·.closeSpace handle markup scope), fun invoker => ?_⟩
    rw [execInstr, Run.modify_bind, Run.bind_of_ok (ht invoker)]
    rfl

/-- **Linking succeeds** and puts out nothing, whatever could be invoked. -/
lemma exec_links (h : ∀ i ∈ is, i.Links) (scope : Scope) (s : Renderer) :
    ∃ t, ∀ invoker, exec invoker scope is s = .ok "" t :=
  exec_of_each (fun i hi => execInstr_links (h i hi) scope) s

/-- The moment is one of running linking code. -/
def Moment.Links (m : Moment) : Prop :=
  match m.task with
  | .instr _ i => i.Links
  | .code _ is => ∀ i ∈ is, i.Links
  | _ => False

/-- Linking consists of linking. -/
lemma Moment.Links.part {a b : Moment} (h : a.Links) (hab : Part a b) : b.Links := by
  cases hab with
  | members =>
    obtain _ | ⟨_, _, hmembers⟩ := h
    exact hmembers
  | first => exact h _ List.mem_cons_self
  | rest _ => exact fun i hi => h i (List.mem_cons_of_mem _ hi)
  | output => cases h
  | displayed _ => cases h
  | wrapped => cases h
  | wrappedDisplayed _ => cases h
  | _ => exact h.elim

/-- Nothing but instructions comes up while linking code runs. -/
lemma Moment.ofCode_of_links {room : Nat} {s : Renderer} {m : Moment} (h : ∀ i ∈ is, i.Links)
    (hm : Reaches ⟨room, .code scope is, s⟩ m) : m.task.OfCode := by
  have hlinks : m.Links := hm.invariant (P := Moment.Links) h fun ha hab => ha.part hab
  obtain ⟨room, task, s⟩ := m
  cases task with
  | instr scope i => exact .instr scope i
  | code scope is => exact .code scope is
  | _ => exact hlinks.elim

/-- Replacing references leaves linking code. -/
lemma Instr.Links.replace (h : i.Links) (f : Expr → Option Expr) : (i.replace f).Links := by
  cases h with
  | define target m => exact .define _ _
  | bindSpace handle markup hmembers => exact .bindSpace handle markup hmembers

/-- So does binding macros elsewhere. -/
lemma Instr.Links.rebind (h : i.Links) (x : Exports) (target : String → Binding) :
    (x.rebind target i).Links := by
  cases h with
  | define place m =>
    cases place with
    | context name =>
      rw [Exports.rebind]
      split
      · exact .define _ _
      · exact .define _ _
    | _ => exact .define _ _
  | bindSpace handle markup hmembers => exact .bindSpace handle markup hmembers

/-- Everything in the fragment except what the file shows is linking code. -/
def Fragment.Links : Fragment → Prop
  | .imported is => ∀ i ∈ is, i.Links
  | .definition _ is => ∀ i ∈ is, i.Links
  | .markup _ => True

/-- What an import binds of such fragments is linking code. -/
lemma links_bound {fragments : List Fragment} (h : ∀ f ∈ fragments, f.Links) {x : Exports}
    {f : Expr → Option Expr} {target : String → Binding} :
    ∀ i ∈ fragments.flatMap (Fragment.bound fun is => replaceAll f (is.map (x.rebind target))),
      i.Links := by
  refine List.forall_mem_flatMap.2 fun fragment hmem => ?_
  have hfragment := h fragment hmem
  cases fragment with
  | imported is => exact hfragment
  | markup is => exact fun _ hi => nomatch hi
  | definition name is =>
    intro i hi
    obtain ⟨j, hj, rfl⟩ := mem_replaceAll.1 hi
    obtain ⟨k, hk, rfl⟩ := List.mem_map.1 hj
    exact ((hfragment k hk).rebind x target).replace f

lemma Exports.links_members {fragments : List Fragment} (h : ∀ f ∈ fragments, f.Links)
    (x : Exports) (handle : String) : ∀ i ∈ x.members handle fragments, i.Links := by
  rw [x.members_eq_flatMap]
  exact links_bound h

lemma Exports.links_pick {fragments : List Fragment} (h : ∀ f ∈ fragments, f.Links) (x : Exports)
    (selected : List String) : ∀ i ∈ x.pick selected fragments, i.Links := by
  rw [x.pick_eq_flatMap]
  exact links_bound h

end Links

/-! ### Tags that import files -/

/-- The macros that go into the private table are those that are not selected. -/
lemma Exports.selectedBinding_eq_hidden (x : Exports) {selected : List String} {name : String}
    {key : Symbol} : x.selectedBinding selected name = .hidden key ↔
      (key.file = x.file ∧ key.name ∉ selected) ∧ name = key.name := by
  obtain ⟨file, k⟩ := key
  rw [selectedBinding]
  split
  next h =>
    simp only [reduceCtorEq, false_iff]
    rintro ⟨⟨_, hk⟩, rfl⟩
    exact hk (List.contains_iff_mem.1 h)
  next h =>
    simp only [Exports.key, Binding.hidden.injEq, Symbol.mk.injEq]
    constructor
    · rintro ⟨rfl, rfl⟩
      exact ⟨⟨rfl, fun hmem => h (List.contains_iff_mem.2 hmem)⟩, rfl⟩
    · rintro ⟨⟨rfl, _⟩, rfl⟩
      exact ⟨rfl, rfl⟩

/-- What a tag that imports the given fragments of a file becomes. -/
inductive TagArgs.Becomes (x : Exports) (fragments : List Fragment) : TagArgs → List Instr → Prop
  | importAll (h : ImportAll) : Becomes x fragments (.importAll h)
      [.bindSpace h.handle (x.members h.handle fragments) (Fragment.markups fragments)]
  | importNames {h : ImportNames} : (∀ n ∈ h.names, x.has n = true) →
      Becomes x fragments (.importNames h) (x.pick h.names fragments)

lemma TagArgs.Becomes.links {x : Exports} {fragments : List Fragment} {args : TagArgs}
    {is : List Instr} (h : args.Becomes x fragments is) (hlinks : ∀ f ∈ fragments, f.Links) :
    ∀ i ∈ is, i.Links := by
  cases h with
  | importAll h => exact List.forall_mem_singleton.2 (.bindSpace _ _ (x.links_members hlinks _))
  | importNames _ => exact x.links_pick hlinks _

namespace FileScope

variable {u : FileScope} {params : List String} {head : TagHead} {content : List Node}
  {path : String} {is : List Instr}

/-- A tag that imports a file compiles to what its fragments become. -/
lemma becomes_of_node (hpath : head.args.path? = some path)
    (hn : u.node params (.tag head content) = .ok is) :
    ∃ name fragments, u.imported path = .ok (name, fragments) ∧
      head.args.Becomes (Exports.ofFragments name fragments) fragments is := by
  obtain ⟨word, args, line, span⟩ := head
  rw [node] at hn
  cases args with
  | definition sig => cases hpath
  | callBlock e source => cases hpath
  | importAll h =>
    cases hpath
    split at hn <;> try cases hn
    obtain ⟨name, fragments, himported, rfl⟩ := importAll_eq hn
    exact ⟨name, fragments, himported, .importAll h⟩
  | importNames h =>
    cases hpath
    split at hn <;> try cases hn
    obtain ⟨name, fragments, himported, hnames, rfl⟩ := importNames_eq hn
    exact ⟨name, fragments, himported, .importNames hnames⟩

/-- If what a file imports links, so do its own fragments. -/
lemma links_of_fragment (himported : ∀ path name fs, u.imported path = .ok (name, fs) →
      ∀ f ∈ fs, f.Links) {n : Node} {f : Fragment} (hf : u.fragment n = .ok f) : f.Links := by
  rw [fragment] at hf
  obtain ⟨is, his, hf⟩ := ok_of_bind hf
  cases hf
  have himport {head : TagHead} {content : List Node} {path : String}
      (hpath : head.args.path? = some path) (his : u.node [] (.tag head content) = .ok is) :
      ∀ i ∈ is, i.Links := by
    obtain ⟨name, fs, hload, hbecomes⟩ := becomes_of_node hpath his
    exact hbecomes.links (himported _ _ _ hload)
  cases n with
  | text s => trivial
  | output o => trivial
  | tag head content =>
    cases hargs : head.args with
    | callBlock e source => simp only [hargs]; trivial
    | importAll h =>
      simp only [hargs]
      exact himport (by rw [hargs]; rfl) his
    | importNames h =>
      simp only [hargs]
      exact himport (by rw [hargs]; rfl) his
    | definition sig =>
      simp only [hargs]
      rw [node] at his
      simp only [hargs] at his
      split at his <;> try cases his
      obtain ⟨body, _, his⟩ := ok_of_bind his
      cases his
      exact List.forall_mem_singleton.2 (.define _ _)

/-- What holds of the fragment of each node holds of all fragments. -/
lemma forall_fragments {P : Fragment → Prop} {ns : List Node} {fs : List Fragment}
    (h : ∀ n ∈ ns, ∀ f, u.fragment n = .ok f → P f) (hfs : u.fragments ns = .ok fs) :
    ∀ f ∈ fs, P f := by
  induction ns generalizing fs with
  | nil =>
    cases hfs
    exact fun _ hf => nomatch hf
  | cons n rest ih =>
    rw [List.forall_mem_cons] at h
    rw [fragments] at hfs
    obtain ⟨f, hfirst, hfs⟩ := ok_of_bind hfs
    obtain ⟨more, hmore, hfs⟩ := ok_of_bind hfs
    cases hfs
    exact List.forall_mem_cons.2 ⟨h.1 f hfirst, ih h.2 hmore⟩

end FileScope

namespace Compiler

variable {c : Compiler}

/-- Imported fragments link. -/
lemma links_of_fragments {room : Nat} {chain : List String} {path name : String}
    {fs : List Fragment} (h : c.fragments room chain path = .ok (name, fs)) :
    ∀ f ∈ fs, f.Links := by
  induction h using imported_induction with
  | step _ _ _ hfs ih =>
    exact FileScope.forall_fragments
      (fun n _ f hf => FileScope.links_of_fragment (fun _ _ _ => ih) hf) hfs

/-- What does not change while a file is compiled that is imported by way of the given files. -/
def within (c : Compiler) (importers : List String) (file : SourceFile) : FileScope :=
  ⟨c.tags, file, c.fragments (c.room - importers.length) (importers ++ [file.name])⟩

/-- What a file imports when it is imported itself, it imports on its own as well. -/
lemma imported_of_within {importers : List String} {page : SourceFile} {path : String}
    {r : String × List Fragment} (h : (c.within importers page).imported path = .ok r) :
    (c.scope page).imported path = .ok r :=
  fragments_mono h (Nat.sub_le _ _) (by simp) fun n hn => List.mem_append_right _ hn

end Compiler

end Stencil
