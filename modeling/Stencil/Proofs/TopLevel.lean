import Stencil.Proofs.Compiling

/-!
Definitions at the top level. A template **defines at the top level only** (`Node.Outermost`) if the
content of each of its tags is **plain**: texts, outputs and call blocks of plain content
(`Node.Plain`). Compiling plain nodes gives **flat** instructions, which define nothing
(`FileScope.flat_of_plain`), and linking keeps them flat. So the program of a template of which all
files define at the top level only binds nothing but macros with flat bodies and namespaces with
flat markup (`Compiler.outermost_of_compile`).
-/

namespace Stencil

/-! ### Instructions -/

namespace Instr

/-- The instruction defines nothing. -/
inductive Flat : Instr → Prop
  | text (s : String) : Flat (.text s)
  | output (e : Expr) : Flat (.output e)
  | callBlock {body : List Instr} (e : Expr) (source : String) : (∀ i ∈ body, Flat i) →
      Flat (.callBlock body e source)

/-- The instruction defines nothing inside of what it defines. -/
inductive Outermost : Instr → Prop
  | flat {i : Instr} : i.Flat → Outermost i
  | define (target : Binding) {m : Macro} : (∀ i ∈ m.body, i.Flat) → Outermost (.define target m)
  | bindSpace (handle : String) {members markup : List Instr} : (∀ i ∈ members, Outermost i) →
      (∀ i ∈ markup, i.Flat) → Outermost (.bindSpace handle members markup)

end Instr

section Replace

variable {f : Expr → Option Expr} {is : List Instr}

/-- Replacing expressions keeps instructions flat. -/
lemma Instr.Flat.replace {i : Instr} (h : i.Flat) : (i.replace f).Flat := by
  induction h with
  | text s => exact .text s
  | output e => exact .output _
  | callBlock e source _ ih =>
    refine .callBlock _ source fun i hi => ?_
    obtain ⟨j, hj, rfl⟩ := mem_replaceAll.1 hi
    exact ih j hj

lemma flat_replaceAll (h : ∀ i ∈ is, i.Flat) : ∀ i ∈ replaceAll f is, i.Flat := by
  intro i hi
  obtain ⟨j, hj, rfl⟩ := mem_replaceAll.1 hi
  exact (h j hj).replace

/-- Replacing expressions moves no definition. -/
lemma Instr.Outermost.replace {i : Instr} (h : i.Outermost) : (i.replace f).Outermost := by
  cases h with
  | flat h => exact .flat h.replace
  | @define target m hm =>
    obtain ⟨name, params, body, file⟩ := m
    exact .define target (flat_replaceAll hm)
  | bindSpace handle hmembers hmarkup => exact .bindSpace handle hmembers hmarkup

end Replace

/-! ### Linking -/

namespace Exports

variable {x : Exports} {is : List Instr}

lemma outermost_rebind {target : String → Binding} {i : Instr} (h : i.Outermost) :
    (x.rebind target i).Outermost := by
  cases h with
  | flat h => cases h <;> exact .flat (by constructor <;> assumption)
  | @define place m hm =>
    cases place with
    | context name =>
      rw [rebind]
      split
      · exact .define _ hm
      · exact .define _ hm
    | member handle name => exact .define _ hm
    | hidden key => exact .define _ hm
  | bindSpace handle hmembers hmarkup => exact .bindSpace handle hmembers hmarkup

end Exports

/-- The fragment defines nothing inside of what it defines, and shows what defines nothing. -/
def Fragment.Outermost : Fragment → Prop
  | .imported is => ∀ i ∈ is, i.Outermost
  | .definition _ is => ∀ i ∈ is, i.Outermost
  | .markup is => ∀ i ∈ is, i.Flat

section Fragments

variable {fragments : List Fragment} (h : ∀ f ∈ fragments, f.Outermost)

include h

lemma flat_markups : ∀ i ∈ Fragment.markups fragments, i.Flat :=
  forall_markups fun _ hmem => h _ hmem

/-- The macros that the fragments bind define nothing inside of what they define. -/
lemma outermost_bound (x : Exports) (f : Expr → Option Expr) (target : String → Binding) :
    ∀ i ∈ fragments.flatMap (Fragment.bound fun is => replaceAll f (is.map (x.rebind target))),
      i.Outermost := by
  refine forall_bound (fun fragment hmem i hi => ?_) fun hi => (Exports.outermost_rebind hi).replace
  have hfragment := h fragment hmem
  cases fragment with
  | imported is => exact hfragment i hi
  | definition name is => exact hfragment i hi
  | markup is => exact .flat (hfragment i hi)

lemma outermost_members (x : Exports) (handle : String) :
    ∀ i ∈ x.members handle fragments, i.Outermost := by
  rw [x.members_eq_flatMap]
  exact outermost_bound h x (x.memberOf handle) (.member handle)

lemma outermost_pick (x : Exports) (selected : List String) :
    ∀ i ∈ x.pick selected fragments, i.Outermost := by
  rw [x.pick_eq_flatMap]
  exact outermost_bound h x (x.symbolOf selected) (x.selectedBinding selected)

end Fragments

/-! ### Templates -/

namespace Node

/-- The node and what it contains are texts, outputs and call blocks. -/
inductive Plain : Node → Prop
  | text (s : String) : Plain (.text s)
  | output (o : Output) : Plain (.output o)
  | callBlock {head : TagHead} {content : List Node} : head.name = TagKind.callBlock.name →
      (∀ n ∈ content, Plain n) → Plain (.tag head content)

/-- If the node is a tag, it contains texts, outputs and call blocks only. -/
def Outermost : Node → Prop
  | .text _ => True
  | .output _ => True
  | .tag _ content => ∀ n ∈ content, n.Plain

end Node

/-- The word of a call block is that of no other tag. -/
lemma TagSet.find?_callBlock {tags : TagSet} {kind : TagKind}
    (h : tags.find? TagKind.callBlock.name = some kind) : kind = .callBlock := by
  have hname := List.find?_some h
  cases kind <;> simp [TagKind.name] at hname ⊢

namespace FileScope

/-- The fragments of all files that can be imported define at the top level only. -/
def ImportsOutermost (u : FileScope) : Prop :=
  ∀ path name fragments, u.imported path = .ok (name, fragments) → ∀ f ∈ fragments, f.Outermost

variable {u : FileScope} {params : List String}

/-- What holds of the instructions of each node holds of those of all nodes. -/
lemma forall_of_nodes {P : Instr → Prop} {ns : List Node} {is : List Instr}
    (h : ∀ n ∈ ns, ∀ {is}, u.node params n = .ok is → ∀ i ∈ is, P i)
    (hn : u.nodes params ns = .ok is) : ∀ i ∈ is, P i := by
  induction ns generalizing is with
  | nil =>
    cases hn
    exact fun _ hi => nomatch hi
  | cons n rest ih =>
    rw [List.forall_mem_cons] at h
    rw [nodes] at hn
    obtain ⟨js, hjs, hn⟩ := ok_of_bind hn
    obtain ⟨more, hmore, hn⟩ := ok_of_bind hn
    cases hn
    exact List.forall_mem_append.2 ⟨h.1 hjs, ih h.2 hmore⟩

/-- Compiling a plain node gives flat instructions. -/
lemma flat_of_plain {n : Node} (h : n.Plain) : ∀ {params : List String} {is : List Instr},
    u.node params n = .ok is → ∀ i ∈ is, i.Flat := by
  induction h with
  | text s =>
    intro params is hn
    cases hn
    simpa using Instr.Flat.text s
  | output o =>
    intro params is hn
    cases hn
    simpa using Instr.Flat.output (resolve params o.expr)
  | @callBlock head content hname _ ih =>
    intro params is hn
    rw [node] at hn
    split at hn
    next => cases hn
    next hfind =>
      rw [hname] at hfind
      cases TagSet.find?_callBlock hfind
    next =>
      split at hn
      next e source _ =>
        obtain ⟨body, hbody, hn⟩ := ok_of_bind hn
        cases hn
        have hflat := forall_of_nodes (fun n hn => ih n hn) hbody
        simpa using Instr.Flat.callBlock (resolve params e) source hflat
      next => cases hn
    next hfind =>
      rw [hname] at hfind
      cases TagSet.find?_callBlock hfind
    next hfind =>
      rw [hname] at hfind
      cases TagSet.find?_callBlock hfind

section Imports

variable (hu : u.ImportsOutermost)

include hu

lemma outermost_importAll {h : ImportAll} {is : List Instr} (hi : u.importAll h = .ok is) :
    ∀ i ∈ is, i.Outermost := by
  rw [importAll] at hi
  obtain ⟨⟨name, fragments⟩, hload, hi⟩ := ok_of_bind hi
  cases hi
  have hfragments := hu _ _ _ hload
  simpa using Instr.Outermost.bindSpace h.handle (outermost_members hfragments _ h.handle)
    (flat_markups hfragments)

lemma outermost_importNames {head : TagHead} {h : ImportNames} {is : List Instr}
    (hi : u.importNames head h = .ok is) : ∀ i ∈ is, i.Outermost := by
  rw [importNames] at hi
  obtain ⟨⟨name, fragments⟩, hload, hi⟩ := ok_of_bind hi
  dsimp only at hi
  split at hi
  · cases hi
  · cases hi
    exact outermost_pick (hu _ _ _ hload) _ h.names

/-- What a node becomes defines nothing inside of what it defines, if what it imports does not. -/
lemma outermost_of_node {n : Node} (h : n.Outermost) {is : List Instr}
    (hn : u.node params n = .ok is) : ∀ i ∈ is, i.Outermost := by
  cases n with
  | text s =>
    cases hn
    simpa using Instr.Outermost.flat (.text s)
  | output o =>
    cases hn
    simpa using Instr.Outermost.flat (.output _)
  | tag head content =>
    rw [node] at hn
    split at hn
    next => cases hn
    next =>
      split at hn
      next sig _ =>
        obtain ⟨body, hbody, hn⟩ := ok_of_bind hn
        cases hn
        have hflat := forall_of_nodes (fun n hn => flat_of_plain (h n hn)) hbody
        simpa using Instr.Outermost.define (.context sig.name)
          (m := ⟨sig.name, _, body, u.file.name⟩) hflat
      next => cases hn
    next =>
      split at hn
      next e source _ =>
        obtain ⟨body, hbody, hn⟩ := ok_of_bind hn
        cases hn
        have hflat := forall_of_nodes (fun n hn => flat_of_plain (h n hn)) hbody
        simpa using Instr.Outermost.flat (.callBlock _ source hflat)
      next => cases hn
    next =>
      split at hn
      next => exact outermost_importAll hu hn
      next => cases hn
    next =>
      split at hn
      next => exact outermost_importNames hu hn
      next => cases hn

lemma outermost_of_nodes {ns : List Node} (h : ∀ n ∈ ns, n.Outermost) {is : List Instr}
    (hn : u.nodes params ns = .ok is) : ∀ i ∈ is, i.Outermost :=
  forall_of_nodes (fun n hn => outermost_of_node hu (h n hn)) hn

/-- What an imported file shows is flat. -/
lemma outermost_of_fragment {n : Node} (h : n.Outermost) {f : Fragment}
    (hf : u.fragment n = .ok f) : f.Outermost := by
  rw [fragment] at hf
  obtain ⟨is, his, hf⟩ := ok_of_bind hf
  have hout := outermost_of_node hu h his
  cases hf
  cases n with
  | text s => exact flat_of_plain (.text s) his
  | output o => exact flat_of_plain (.output o) his
  | tag head content =>
    cases hargs : head.args with
    | definition sig => simpa only [hargs, Fragment.Outermost] using hout
    | importAll header => simpa only [hargs, Fragment.Outermost] using hout
    | importNames header => simpa only [hargs, Fragment.Outermost] using hout
    | callBlock e source =>
      simp only [hargs]
      -- only the word of a call block goes with its arguments
      rw [node] at his
      rw [hargs] at his
      split at his
      next => cases his
      next => cases his
      next =>
        obtain ⟨body, hbody, his⟩ := ok_of_bind his
        cases his
        have hflat := forall_of_nodes (fun n hn => flat_of_plain (h n hn)) hbody
        simpa [Fragment.Outermost] using Instr.Flat.callBlock _ source hflat
      next => cases his
      next => cases his

lemma outermost_of_fragments {ns : List Node} (h : ∀ n ∈ ns, n.Outermost)
    {fs : List Fragment} (hf : u.fragments ns = .ok fs) : ∀ f ∈ fs, f.Outermost := by
  induction ns generalizing fs with
  | nil =>
    cases hf
    exact fun _ hi => nomatch hi
  | cons n rest ih =>
    rw [List.forall_mem_cons] at h
    rw [fragments] at hf
    obtain ⟨f, hfirst, hf⟩ := ok_of_bind hf
    obtain ⟨more, hmore, hf⟩ := ok_of_bind hf
    cases hf
    exact List.forall_mem_cons.2 ⟨outermost_of_fragment hu h.1 hfirst, ih h.2 hmore⟩

end Imports

end FileScope

/-! ### Sets of templates -/

namespace Compiler

variable {c : Compiler}

/-- All nodes of the file, if it can be read, define at the top level only. -/
def Outermost (c : Compiler) (file : SourceFile) : Prop :=
  ∀ ns, c.nodes file = .ok ns → ∀ n ∈ ns, n.Outermost

/-- All files that may be imported define at the top level only. -/
def LibraryOutermost (c : Compiler) : Prop :=
  ∀ name text, c.library.text? name = some text → c.Outermost ⟨name, text⟩

lemma outermost_of_load (h : c.LibraryOutermost) {importer : Option String} {path : String}
    {file : SourceFile} (hl : c.load importer path = .ok file) : c.Outermost file := by
  rw [load] at hl
  split at hl
  next text htext =>
    cases hl
    exact h _ text htext
  next => cases hl

/-- The fragments of an imported file define nothing inside of what they define. -/
lemma outermost_of_fragments (h : c.LibraryOutermost) (room : Nat) :
    ∀ chain path name fs, c.fragments room chain path = .ok (name, fs) →
      ∀ f ∈ fs, f.Outermost := by
  intro chain path name fs hf
  induction hf using imported_induction with
  | @step room chain path file ns fs hload _ hns hfs ih =>
    let u : FileScope := ⟨c.tags, file, c.fragments room (chain ++ [file.name])⟩
    have hu : u.ImportsOutermost := fun _ _ _ => ih
    exact FileScope.outermost_of_fragments hu (outermost_of_load h hload ns hns) hfs

/-- The program of a template defines nothing inside of what it defines, if neither the template nor
any file it may import does. -/
lemma outermost_of_compile (h : c.LibraryOutermost) {entry : SourceFile} (he : c.Outermost entry)
    {p : Program} (hp : c.compile entry = .ok p) : ∀ i ∈ p.instrs, i.Outermost := by
  obtain ⟨ns, hns, his⟩ := nodes_of_compile hp
  let u : FileScope := ⟨c.tags, entry, c.fragments c.room [entry.name]⟩
  have hu : u.ImportsOutermost := outermost_of_fragments h c.room [entry.name]
  exact FileScope.outermost_of_nodes hu (he ns hns) his

end Compiler

end Stencil
