import Stencil.Compile
import Stencil.Proofs.Reading

/-!
What compiling a template consists of. `FileScope.Compiles` relates nodes to the code they become,
with one rule for each kind of node, so that what holds of all compiled code can be shown by
induction on the rules (`FileScope.compiles_of_nodes`). The rules are those of the compiler in both
directions (`FileScope.nodes_of_compiles`).

An imported file that compiles has been found, is not on the chain of the files that import it, and
leaves room (`Compiler.load_of_fragments`), so that what holds of all imported files can be shown by
induction on imports (`Compiler.imported_induction`). Its fragments, put together, are the code that
the file becomes on its own (`FileScope.nodes_of_fragments`), which depends neither on the chain nor
on the room left (`Compiler.fragments_mono`).
-/

namespace Stencil

/-- The file that a tag imports. -/
def TagArgs.path? : TagArgs → Option String
  | .importAll h => some h.path
  | .importNames h => some h.path
  | _ => none

namespace FileScope

variable {u u' : FileScope} {params : List String} {n : Node} {ns : List Node} {is js : List Instr}

/-! ### Nodes -/

/-- The nodes, inside macros with the given parameters, become the instructions. -/
inductive Compiles (u : FileScope) : List String → List Node → List Instr → Prop
  | nil (params : List String) : Compiles u params [] []
  | text {params : List String} {ns : List Node} {is : List Instr} (s : String) :
      Compiles u params ns is → Compiles u params (.text s :: ns) (.text s :: is)
  | output {params : List String} {ns : List Node} {is : List Instr} {o : Output} :
      o.expr.IsSource → Compiles u params ns is →
      Compiles u params (.output o :: ns) (.output (resolve params o.expr) :: is)
  | definition {params : List String} {ns content : List Node} {is body : List Instr}
      {head : TagHead} {sig : Signature} : u.tags.find? head.name = some .definition →
      head.args = .definition sig → sig.IsSource →
      Compiles u (sig.params.map (·.name) ++ params) content body → Compiles u params ns is →
      Compiles u params (.tag head content :: ns) (.define (.context sig.name) ⟨sig.name,
        FileScope.params (sig.params.map (·.name) ++ params) sig, body, u.file.name⟩ :: is)
  | callBlock {params : List String} {ns content : List Node} {is body : List Instr}
      {head : TagHead} {e : Expr} {source : String} : u.tags.find? head.name = some .callBlock →
      head.args = .callBlock e source → e.IsSource → Compiles u params content body →
      Compiles u params ns is → Compiles u params (.tag head content :: ns)
        (.callBlock body (resolve params e) source :: is)
  | importAll {params : List String} {ns content : List Node} {is : List Instr} {head : TagHead}
      {h : ImportAll} {name : String} {fragments : List Fragment} :
      u.tags.find? head.name = some .importAll → head.args = .importAll h →
      u.imported h.path = .ok (name, fragments) → Compiles u params ns is →
      Compiles u params (.tag head content :: ns) (.bindSpace h.handle
        ((Exports.ofFragments name fragments).members h.handle fragments)
        (Fragment.markups fragments) :: is)
  | importNames {params : List String} {ns content : List Node} {is : List Instr} {head : TagHead}
      {h : ImportNames} {name : String} {fragments : List Fragment} :
      u.tags.find? head.name = some .importNames → head.args = .importNames h →
      u.imported h.path = .ok (name, fragments) →
      (∀ n ∈ h.names, (Exports.ofFragments name fragments).has n = true) → Compiles u params ns is →
      Compiles u params (.tag head content :: ns)
        ((Exports.ofFragments name fragments).pick h.names fragments ++ is)

lemma importAll_eq {h : ImportAll} (hi : u.importAll h = .ok is) :
    ∃ name fragments, u.imported h.path = .ok (name, fragments) ∧
      is = [.bindSpace h.handle ((Exports.ofFragments name fragments).members h.handle fragments)
        (Fragment.markups fragments)] := by
  rw [importAll] at hi
  obtain ⟨⟨name, fragments⟩, hload, hi⟩ := ok_of_bind hi
  cases hi
  exact ⟨name, fragments, hload, rfl⟩

lemma importNames_eq {head : TagHead} {h : ImportNames} (hi : u.importNames head h = .ok is) :
    ∃ name fragments, u.imported h.path = .ok (name, fragments) ∧
      (∀ n ∈ h.names, (Exports.ofFragments name fragments).has n = true) ∧
      is = (Exports.ofFragments name fragments).pick h.names fragments := by
  rw [importNames] at hi
  obtain ⟨⟨name, fragments⟩, hload, hi⟩ := ok_of_bind hi
  dsimp only at hi
  split at hi
  · cases hi
  next hfind =>
    cases hi
    exact ⟨name, fragments, hload, by simpa using hfind, rfl⟩

/-- What holds of each node holds of all nodes. -/
lemma compiles_of_each (h : ∀ n ∈ ns, ∀ {is}, u.node params n = .ok is →
      ∀ {ms js}, u.Compiles params ms js → u.Compiles params (n :: ms) (is ++ js))
    (hn : u.nodes params ns = .ok is) : u.Compiles params ns is := by
  induction ns generalizing is with
  | nil =>
    cases hn
    exact .nil params
  | cons n rest ih =>
    rw [List.forall_mem_cons] at h
    rw [nodes] at hn
    obtain ⟨first, hfirst, hn⟩ := ok_of_bind hn
    obtain ⟨more, hmore, hn⟩ := ok_of_bind hn
    cases hn
    exact h.1 hfirst (ih h.2 hmore)

/-- A node compiles by one of the rules. -/
lemma Compiles.cons (hlegible : n.Legible u.tags) :
    ∀ {params : List String} {is : List Instr}, u.node params n = .ok is →
      ∀ {ms js}, u.Compiles params ms js → u.Compiles params (n :: ms) (is ++ js) := by
  induction hlegible with
  | text s =>
    intro params is hn ms js hms
    cases hn
    exact .text s hms
  | output ho =>
    intro params is hn ms js hms
    cases hn
    exact .output ho hms
  | @tag head content hhead _ ih =>
    intro params is hn ms js hms
    obtain ⟨word, args, line, span⟩ := head
    obtain ⟨kind, hkind, hsays⟩ := hhead
    rw [node, hkind] at hn
    cases hsays with
    | definition hsig =>
      obtain ⟨body, hbody, hn⟩ := ok_of_bind hn
      cases hn
      exact .definition hkind rfl hsig (compiles_of_each (fun n hn => ih n hn) hbody) hms
    | callBlock source he =>
      obtain ⟨body, hbody, hn⟩ := ok_of_bind hn
      cases hn
      exact .callBlock hkind rfl he (compiles_of_each (fun n hn => ih n hn) hbody) hms
    | importAll h =>
      obtain ⟨name, fragments, hload, rfl⟩ := importAll_eq hn
      exact .importAll hkind rfl hload hms
    | importNames h =>
      obtain ⟨name, fragments, hload, hnames, rfl⟩ := importNames_eq hn
      exact .importNames hkind rfl hload hnames hms

/-- Legible nodes compile by the rules. -/
lemma compiles_of_nodes (hlegible : ∀ n ∈ ns, n.Legible u.tags) (hn : u.nodes params ns = .ok is) :
    u.Compiles params ns is :=
  compiles_of_each (fun n hmem => Compiles.cons (hlegible n hmem)) hn

/-- What compiles by the rules compiles. -/
lemma nodes_of_compiles (h : u.Compiles params ns is) : u.nodes params ns = .ok is := by
  induction h with
  | nil => rfl
  | text s _ ih => rw [nodes, node, ih]; rfl
  | output _ _ ih => rw [nodes, node, ih]; rfl
  | definition hkind hargs _ _ _ ihcontent ih =>
    rw [nodes, node, hkind, ih]
    dsimp only
    rw [hargs]
    dsimp only
    rw [ihcontent]
    rfl
  | callBlock hkind hargs _ _ _ ihcontent ih =>
    rw [nodes, node, hkind, ih]
    dsimp only
    rw [hargs]
    dsimp only
    rw [ihcontent]
    rfl
  | importAll hkind hargs hload _ ih =>
    rw [nodes, node, hkind, ih]
    dsimp only
    rw [hargs]
    dsimp only
    rw [FileScope.importAll, hload]
    rfl
  | @importNames _ _ _ _ _ h name fragments hkind hargs hload hnames _ ih =>
    have hfind : (h.names.find? fun n => !(Exports.ofFragments name fragments).has n) = none :=
      List.find?_eq_none.2 fun n hn => by simp [hnames n hn]
    rw [nodes, node, hkind, ih]
    dsimp only
    rw [hargs]
    dsimp only
    rw [FileScope.importNames, hload]
    simp only [bind, Except.bind, hfind]
    rfl

lemma nodes_append_bind (u : FileScope) (params : List String) (ns ms : List Node) :
    u.nodes params (ns ++ ms) = u.nodes params ns >>= fun is =>
      u.nodes params ms >>= fun js => .ok (is ++ js) := by
  induction ns with
  | nil =>
    rw [List.nil_append, nodes]
    cases u.nodes params ms <;> rfl
  | cons n rest ih =>
    rw [List.cons_append, nodes, nodes, ih]
    cases u.node params n with
    | error e => rfl
    | ok is =>
      cases u.nodes params rest with
      | error e => rfl
      | ok js =>
        cases u.nodes params ms with
        | error e => rfl
        | ok ks =>
          show Except.ok (is ++ (js ++ ks)) = Except.ok (is ++ js ++ ks)
          rw [List.append_assoc]

section Tally

variable {E : Error → Error → Prop} {R : List Instr → List Instr → Prop} {n' : Node}
  {ns' ms ms' : List Node}

/-- Lists of nodes compile alike piece by piece. -/
lemma tally_append (hns : Tally E R (u.nodes params ns) (u'.nodes params ns'))
    (hms : Tally E R (u.nodes params ms) (u'.nodes params ms'))
    (happend : ∀ {is is' js js'}, R is is' → R js js' → R (is ++ js) (is' ++ js')) :
    Tally E R (u.nodes params (ns ++ ms)) (u'.nodes params (ns' ++ ms')) := by
  rw [nodes_append_bind, nodes_append_bind]
  exact hns.bind fun his => hms.bind fun hjs => .ok (happend his hjs)

lemma tally_cons (hn : Tally E R (u.node params n) (u'.node params n'))
    (hns : Tally E R (u.nodes params ns) (u'.nodes params ns'))
    (happend : ∀ {is is' js js'}, R is is' → R js js' → R (is ++ js) (is' ++ js')) :
    Tally E R (u.nodes params (n :: ns)) (u'.nodes params (n' :: ns')) := by
  rw [nodes, nodes]
  exact hn.bind fun his => hns.bind fun hjs => .ok (happend his hjs)

end Tally

/-- More files that can be imported do not change what compiles already. -/
lemma Compiles.mono (htags : u.tags = u'.tags) (hfile : u.file = u'.file)
    (himported : ∀ path r, u.imported path = .ok r → u'.imported path = .ok r)
    (h : u.Compiles params ns is) : u'.Compiles params ns is := by
  induction h with
  | nil => exact .nil _
  | text s _ ih => exact .text s ih
  | output ho _ ih => exact .output ho ih
  | definition hkind hargs hsig _ _ ihcontent ih =>
    rw [hfile]
    exact .definition (htags ▸ hkind) hargs hsig ihcontent ih
  | callBlock hkind hargs he _ _ ihcontent ih =>
    exact .callBlock (htags ▸ hkind) hargs he ihcontent ih
  | importAll hkind hargs hload _ ih =>
    exact .importAll (htags ▸ hkind) hargs (himported _ _ hload) ih
  | importNames hkind hargs hload hnames _ ih =>
    exact .importNames (htags ▸ hkind) hargs (himported _ _ hload) hnames ih

end FileScope

/-! ### Fragments -/

/-- The code of a fragment. -/
def Fragment.code : Fragment → List Instr
  | .imported is => is
  | .definition _ is => is
  | .markup is => is

/-- What the fragments of a file import. -/
def Fragment.imports : List Fragment → List Instr
  | [] => []
  | .imported is :: rest => is ++ imports rest
  | .definition _ _ :: rest => imports rest
  | .markup _ :: rest => imports rest

namespace FileScope

variable {u u' : FileScope} {n : Node} {ns : List Node} {fragments : List Fragment}

lemma node_of_fragment {f : Fragment} (hf : u.fragment n = .ok f) :
    u.node [] n = .ok f.code := by
  rw [fragment] at hf
  obtain ⟨is, his, hf⟩ := ok_of_bind hf
  rw [his]
  cases hf
  cases n with
  | text s => rfl
  | output o => rfl
  | tag head content => cases hargs : head.args <;> simp only [hargs, Fragment.code]

/-- More files that can be imported do not change a fragment that compiles already. -/
lemma fragment_mono (htags : u.tags = u'.tags) (hfile : u.file = u'.file)
    (himported : ∀ path r, u.imported path = .ok r → u'.imported path = .ok r)
    (hlegible : n.Legible u.tags) {f : Fragment} (hf : u.fragment n = .ok f) :
    u'.fragment n = .ok f := by
  have hnode := node_of_fragment hf
  have hcompiles := (Compiles.cons hlegible hnode (.nil [])).mono htags hfile himported
  have hnodes := nodes_of_compiles hcompiles
  rw [nodes] at hnodes
  obtain ⟨is, his, hnodes⟩ := ok_of_bind hnodes
  obtain ⟨more, hmore, hnodes⟩ := ok_of_bind hnodes
  cases hmore
  have hcode : is = f.code := List.append_cancel_right (Except.ok.inj hnodes)
  rw [fragment, hnode] at hf
  rw [fragment, his, hcode]
  exact hf

lemma fragments_mono (htags : u.tags = u'.tags) (hfile : u.file = u'.file)
    (himported : ∀ path r, u.imported path = .ok r → u'.imported path = .ok r)
    (hlegible : ∀ n ∈ ns, n.Legible u.tags) (hf : u.fragments ns = .ok fragments) :
    u'.fragments ns = .ok fragments := by
  induction ns generalizing fragments with
  | nil => exact hf
  | cons n rest ih =>
    rw [List.forall_mem_cons] at hlegible
    rw [FileScope.fragments] at hf
    obtain ⟨f, hfirst, hf⟩ := ok_of_bind hf
    obtain ⟨more, hmore, hf⟩ := ok_of_bind hf
    rw [FileScope.fragments, fragment_mono htags hfile himported hlegible.1 hfirst,
      ih hlegible.2 hmore]
    exact hf

/-- The fragments of a file are its code, piece by piece. -/
lemma nodes_of_fragments (hf : u.fragments ns = .ok fragments) :
    u.nodes [] ns = .ok (fragments.flatMap Fragment.code) := by
  induction ns generalizing fragments with
  | nil =>
    cases hf
    rfl
  | cons n rest ih =>
    rw [FileScope.fragments] at hf
    obtain ⟨f, hfirst, hf⟩ := ok_of_bind hf
    obtain ⟨more, hmore, hf⟩ := ok_of_bind hf
    cases hf
    rw [nodes, node_of_fragment hfirst, ih hmore]
    rfl

end FileScope

/-! ### Linking -/

lemma mem_replaceAll {f : Expr → Option Expr} {is : List Instr} {i : Instr} :
    i ∈ replaceAll f is ↔ ∃ j ∈ is, j.replace f = i := by
  induction is with
  | nil => simp [replaceAll]
  | cons j rest ih => simp [replaceAll, ih, eq_comm]

lemma replaceAll_append {f : Expr → Option Expr} (is js : List Instr) :
    replaceAll f (is ++ js) = replaceAll f is ++ replaceAll f js := by
  induction is with
  | nil => rfl
  | cons i rest ih => rw [List.cons_append, replaceAll, replaceAll, ih, List.cons_append]

/-- What an import of the fragment binds, if it turns a definition into `link` of it. -/
def Fragment.bound (link : List Instr → List Instr) : Fragment → List Instr
  | .imported is => is
  | .definition _ is => link is
  | .markup _ => []

namespace Exports

lemma members_eq_flatMap (x : Exports) (handle : String) (fragments : List Fragment) :
    x.members handle fragments = fragments.flatMap (Fragment.bound (x.intoSpace handle)) := by
  induction fragments with
  | nil => rfl
  | cons f rest ih =>
    rw [List.flatMap_cons, ← ih]
    cases f <;> rfl

lemma pick_eq_flatMap (x : Exports) (selected : List String) (fragments : List Fragment) :
    x.pick selected fragments = fragments.flatMap (Fragment.bound (x.selecting selected)) := by
  induction fragments with
  | nil => rfl
  | cons f rest ih =>
    rw [List.flatMap_cons, ← ih]
    cases f <;> rfl

end Exports

/-- The exports of a file are the macros among its fragments. -/
lemma Exports.mem_collect {names : List String} {name : String} {fragments : List Fragment} :
    name ∈ collect names fragments ↔ name ∈ names ∨ ∃ is, .definition name is ∈ fragments := by
  induction fragments generalizing names with
  | nil => simp [collect]
  | cons f rest ih =>
    cases f with
    | definition first is =>
      have hadd : name ∈ addName names first ↔ name ∈ names ∨ name = first := by
        rw [addName]
        split
        next h =>
          have hmem : first ∈ names := by simpa using h
          rw [or_iff_left_of_imp]
          rintro rfl
          exact hmem
        next => simp
      rw [collect, ih, hadd]
      simp [exists_or, or_assoc]
    | imported is => simp [collect, ih]
    | markup is => simp [collect, ih]

lemma Exports.has_ofFragments {file name : String} {fragments : List Fragment} :
    (ofFragments file fragments).has name = true ↔ ∃ is, .definition name is ∈ fragments :=
  List.contains_iff_mem.trans (mem_collect.trans (or_iff_right List.not_mem_nil))

/-- What holds of the code of fragments, and is kept by linking, holds of what they bind. -/
lemma forall_bound {P : Instr → Prop} {fragments : List Fragment}
    (h : ∀ f ∈ fragments, ∀ i ∈ f.code, P i) {x : Exports} {f : Expr → Option Expr}
    {target : String → Binding} (hlink : ∀ {i}, P i → P ((x.rebind target i).replace f)) :
    ∀ i ∈ fragments.flatMap (Fragment.bound fun is => replaceAll f (is.map (x.rebind target))),
      P i := by
  intro i hi
  obtain ⟨fragment, hmem, hi⟩ := List.mem_flatMap.1 hi
  have hcode := h fragment hmem
  cases fragment with
  | imported is => exact hcode i hi
  | definition name is =>
    obtain ⟨j, hj, rfl⟩ := mem_replaceAll.1 hi
    obtain ⟨k, hk, rfl⟩ := List.mem_map.1 hj
    exact hlink (hcode k hk)
  | markup is => exact nomatch hi

/-- What holds of all markup among the fragments holds of what they show. -/
lemma forall_markups {P : Instr → Prop} {fragments : List Fragment}
    (h : ∀ is, .markup is ∈ fragments → ∀ i ∈ is, P i) : ∀ i ∈ Fragment.markups fragments, P i := by
  induction fragments with
  | nil => exact fun _ hi => nomatch hi
  | cons f rest ih =>
    have hrest := ih fun is hmem => h is (List.mem_cons_of_mem _ hmem)
    cases f with
    | markup is => exact List.forall_mem_append.2 ⟨h is List.mem_cons_self, hrest⟩
    | imported is => exact hrest
    | definition name is => exact hrest

/-! ### Files -/

namespace Compiler

variable {c : Compiler}

/-- What does not change while a page is compiled. -/
def scope (c : Compiler) (page : SourceFile) : FileScope :=
  ⟨c.tags, page, c.fragments c.room [page.name]⟩

lemma compile_of_nodes {page : SourceFile} {ns : List Node} {is : List Instr}
    (hnodes : c.nodes page = .ok ns) (his : (c.scope page).nodes [] ns = .ok is) :
    c.compile page = .ok ⟨page.name, is⟩ := by
  rw [compile, hnodes]
  show c.program page ns = _
  rw [program]
  show ((c.scope page).nodes [] ns >>= _) = _
  rw [his]
  rfl

lemma nodes_of_compile {page : SourceFile} {p : Program} (hp : c.compile page = .ok p) :
    ∃ ns, c.nodes page = .ok ns ∧ (c.scope page).nodes [] ns = .ok p.instrs := by
  rw [compile] at hp
  obtain ⟨ns, hns, hp⟩ := ok_of_bind hp
  rw [program] at hp
  obtain ⟨is, his, hp⟩ := ok_of_bind hp
  cases hp
  exact ⟨ns, hns, his⟩

lemma ofSource_of_nodes {page : SourceFile} {ns : List Node} (h : c.nodes page = .ok ns) :
    Node.ofSource c.tags page.text = .ok ns := by
  rw [nodes] at h
  cases hread : Node.ofSource c.tags page.text with
  | error e =>
    rw [hread] at h
    cases h
  | ok ms =>
    rw [hread] at h
    cases h
    rfl

lemma legible_of_nodes {page : SourceFile} {ns : List Node} (h : c.nodes page = .ok ns) :
    ∀ n ∈ ns, n.Legible c.tags :=
  Node.legible_of_ofSource (ofSource_of_nodes h)

/-- What compiles has been read, and compiles by the rules. -/
lemma compiles_of_compile {page : SourceFile} {p : Program} (hp : c.compile page = .ok p) :
    ∃ ns, c.nodes page = .ok ns ∧ (c.scope page).Compiles [] ns p.instrs := by
  obtain ⟨ns, hns, his⟩ := nodes_of_compile hp
  exact ⟨ns, hns, FileScope.compiles_of_nodes (legible_of_nodes hns) his⟩

/-- An imported file has been found and read, and is not on the chain. -/
lemma load_of_fragments {room : Nat} {chain : List String} {path name : String}
    {fragments : List Fragment} (h : c.fragments room chain path = .ok (name, fragments)) :
    ∃ room' file ns, room = room' + 1 ∧ c.load chain.getLast? path = .ok file ∧
      file.name = name ∧ file.name ∉ chain ∧ c.nodes file = .ok ns ∧
      FileScope.fragments ⟨c.tags, file, c.fragments room' (chain ++ [file.name])⟩ ns =
        .ok fragments := by
  cases room with
  | zero =>
    rw [Compiler.fragments] at h
    obtain ⟨file, _, h⟩ := ok_of_bind h
    dsimp only at h
    split at h
    · cases h
    · cases h
  | succ room =>
    rw [Compiler.fragments] at h
    obtain ⟨file, hload, h⟩ := ok_of_bind h
    dsimp only at h
    split at h
    · cases h
    next hchain =>
      obtain ⟨ns, hns, h⟩ := ok_of_bind h
      obtain ⟨fs, hfs, h⟩ := ok_of_bind h
      cases h
      exact ⟨room, file, ns, rfl, hload, rfl, by simpa using hchain, hns, hfs⟩

/-- A file that is there and not yet on the chain is read and compiled. -/
lemma fragments_of_load {room : Nat} {chain : List String} {path : String} {file : SourceFile}
    {ns : List Node} {fs : List Fragment} (hload : c.load chain.getLast? path = .ok file)
    (hchain : file.name ∉ chain) (hnodes : c.nodes file = .ok ns)
    (hfs : FileScope.fragments ⟨c.tags, file, c.fragments room (chain ++ [file.name])⟩ ns =
      .ok fs) :
    c.fragments (room + 1) chain path = .ok (file.name, fs) := by
  have hcontains : chain.contains file.name = false := by simpa using hchain
  rw [fragments, hload]
  simp only [bind, Except.bind, hcontains, hnodes, hfs]
  rfl

/-- **Induction on imports.** What a file has as soon as all that it imports has it, all imported
files have. -/
@[elab_as_elim]
lemma imported_induction {motive : ∀ {room : Nat} {chain : List String} {path name : String}
      {fs : List Fragment}, c.fragments room chain path = .ok (name, fs) → Prop}
    (step : ∀ {room : Nat} {chain : List String} {path : String} {file : SourceFile}
      {ns : List Node} {fs : List Fragment} (hload : c.load chain.getLast? path = .ok file)
      (hchain : file.name ∉ chain) (hnodes : c.nodes file = .ok ns)
      (hfs : FileScope.fragments ⟨c.tags, file, c.fragments room (chain ++ [file.name])⟩ ns =
        .ok fs), (∀ {path name : String} {fs : List Fragment}
          (h : c.fragments room (chain ++ [file.name]) path = .ok (name, fs)), motive h) →
      motive (fragments_of_load hload hchain hnodes hfs))
    {room : Nat} {chain : List String} {path name : String} {fs : List Fragment}
    (h : c.fragments room chain path = .ok (name, fs)) : motive h := by
  induction room generalizing chain path name fs with
  | zero =>
    obtain ⟨_, _, _, hzero, _⟩ := load_of_fragments h
    cases hzero
  | succ room ih =>
    obtain ⟨_, file, ns, hsucc, hload, rfl, hchain, hnodes, hfs⟩ := load_of_fragments h
    cases hsucc
    exact step hload hchain hnodes hfs ih

/-- Neither more room nor fewer files on the chain change what an imported file becomes, as long as
the importing file is the same. -/
lemma fragments_mono {room room' : Nat} {chain chain' : List String} {path : String}
    {r : String × List Fragment} (h : c.fragments room chain path = .ok r) (hroom : room ≤ room')
    (hlast : chain'.getLast? = chain.getLast?) (hchain : ∀ name ∈ chain', name ∈ chain) :
    c.fragments room' chain' path = .ok r := by
  obtain ⟨name, fs⟩ := r
  induction h using imported_induction generalizing room' chain' with
  | @step room chain path file ns fs hload hnot hns hfs ih =>
    obtain ⟨room', rfl⟩ : ∃ k, room' = k + 1 := ⟨room' - 1, by omega⟩
    have himported (path : String) (r : String × List Fragment)
        (hr : c.fragments room (chain ++ [file.name]) path = .ok r) :
        c.fragments room' (chain' ++ [file.name]) path = .ok r := by
      refine ih hr (Nat.le_of_succ_le_succ hroom) (by simp) fun name hname => ?_
      rw [List.mem_append] at hname ⊢
      exact hname.imp_left (hchain name)
    let u : FileScope := ⟨c.tags, file, c.fragments room (chain ++ [file.name])⟩
    exact fragments_of_load (hlast ▸ hload) (mt (hchain _) hnot) hns
      (FileScope.fragments_mono (u := u) rfl rfl himported (legible_of_nodes hns) hfs)

section Induction

variable {P : List String → String → List Instr → Prop}
  (step : ∀ {u : FileScope} {chain ns is}, u.file.name ∉ chain →
    (∀ path name fs, u.imported path = .ok (name, fs) →
      P (chain ++ [u.file.name]) name (fs.flatMap Fragment.code)) →
    u.Compiles [] ns is → P chain u.file.name is)

include step

lemma fragments_induction (room : Nat) : ∀ chain path name fs,
    c.fragments room chain path = .ok (name, fs) → P chain name (fs.flatMap Fragment.code) := by
  intro chain path name fs h
  induction h using imported_induction with
  | @step room chain path file ns fs _ hnot hns hfs ih =>
    let u : FileScope := ⟨c.tags, file, c.fragments room (chain ++ [file.name])⟩
    exact step (u := u) hnot (fun _ _ _ => ih)
      (FileScope.compiles_of_nodes (legible_of_nodes hns) (FileScope.nodes_of_fragments hfs))

/-- What passes on from imported files to the importing ones, given the chain of the importing
files, holds of all programs. -/
lemma compile_induction {entry : SourceFile} {p : Program} (hp : c.compile entry = .ok p) :
    P [] entry.name p.instrs := by
  obtain ⟨ns, _, hcompiles⟩ := compiles_of_compile hp
  exact step (u := c.scope entry) (List.not_mem_nil) (fragments_induction step c.room _) hcompiles

end Induction

end Compiler

end Stencil
