import Stencil.Proofs.Importing
import Stencil.Proofs.Stopping
import Mathlib.Data.List.Chain
import Mathlib.Data.List.Nodup
import Mathlib.Order.WellFounded

/-!
The graph of imports. A file **imports** another one if a tag anywhere in it does
(`Compiler.Imports`), also in the body of a macro or the content of a call block, and whatever
becomes of what it imports. The names of the files that are entered one after the other form a
**chain** (`Compiler.Chain`).

* The recursion along the chains ends (`Compiler.opens_wellFounded`), and the source of the compiler
  is a description of it that leaves nothing open (`Compiler.Recurs.unique`).
* If a file compiles, each path in it has been followed (`FileScope.imported_of_path`). A chain that
  continues from an imported file therefore uses up the room there is for it, and never comes back
  (`Compiler.chain_of_fragments`).
* If it fails because of a circle, a path in it has been followed to the failure
  (`FileScope.stops_of_nodes`), and so on up to the file that is on the chain already
  (`Compiler.chain_of_circular`).

The main result is `imports_acyclic`.
-/

namespace Stencil

/-! ### Paths -/

/-- Tags that import a file have no content, anywhere in the node. -/
inductive Node.Bare : Node → Prop
  | text (s : String) : Bare (.text s)
  | output (o : Output) : Bare (.output o)
  | tag {head : TagHead} {content : List Node} : (head.args.path? = none ∨ content = []) →
      (∀ n ∈ content, Bare n) → Bare (.tag head content)

lemma TagKind.Says.path?_eq_none {kind : TagKind} {args : TagArgs} (h : kind.Says args)
    (hend : kind.hasEnd = true) : args.path? = none := by
  cases h with
  | definition | callBlock => rfl
  | importAll | importNames => cases hend

/-- Tags that import a file are not read any content. -/
lemma Node.bare_of_ofSource {tags : TagSet} {source : String} {nodes : List Node}
    (h : ofSource tags source = .ok nodes) : ∀ n ∈ nodes, n.Bare :=
  forall_of_ofSource (Q := fun head => head.args.path? = none) {
    text := .text
    output := fun _ => .output _
    tag := fun _ _ _ => .tag (.inr rfl) (by simp)
    opened := fun _ hsays hend => hsays.path?_eq_none hend
    ended := fun _ hhead hcontent => .tag (.inl hhead) hcontent } h

namespace FileScope

variable {u u' : FileScope} {params : List String} {n : Node} {ns : List Node} {is : List Instr}

/-- What compiles has been able to follow all paths. -/
lemma imported_of_path (hc : u.Compiles params ns is) (hbare : ∀ n ∈ ns, n.Bare) :
    ∀ path ∈ allPaths ns, ∃ r, u.imported path = .ok r := by
  induction hc with
  | nil => exact fun _ hp => nomatch hp
  | text s _ ih => exact ih fun n hn => hbare n (List.mem_cons_of_mem _ hn)
  | output _ _ ih => exact ih fun n hn => hbare n (List.mem_cons_of_mem _ hn)
  | definition _ hargs _ _ _ ihcontent ih | callBlock _ hargs _ _ _ ihcontent ih =>
    rw [List.forall_mem_cons] at hbare
    obtain ⟨⟨⟩ | ⟨⟩ | ⟨_, hcontent⟩, hrest⟩ := hbare
    intro path hp
    rw [allPaths, Node.paths, hargs] at hp
    obtain hp | hp := List.mem_append.1 hp
    · exact ihcontent hcontent path hp
    · exact ih hrest path hp
  | importAll _ hargs himported _ ih | importNames _ hargs himported _ _ ih =>
    rw [List.forall_mem_cons] at hbare
    obtain ⟨⟨⟩ | ⟨⟩ | ⟨hnone, _⟩, hrest⟩ := hbare
    intro path hp
    obtain hargs' | rfl := hnone
    · rw [hargs] at hargs'
      cases hargs'
    · rw [allPaths, Node.paths, hargs] at hp
      obtain hp | hp := List.mem_append.1 hp
      · obtain rfl := List.mem_singleton.1 hp
        exact ⟨_, himported⟩
      · exact ih hrest path hp

section Congr

variable {tags : TagSet} {file : SourceFile} {f g : String → Except Error (String × List Fragment)}

mutual

/-- A node compiles in the same way if its paths lead to the same files. -/
lemma node_congr (params : List String) : ∀ n : Node, (∀ path ∈ n.paths, f path = g path) →
    node ⟨tags, file, f⟩ params n = node ⟨tags, file, g⟩ params n
  | .text _, _ => rfl
  | .output _, _ => rfl
  | .tag ⟨word, args, line, span⟩ content, h => by
    rw [Node.paths, List.forall_mem_append] at h
    rw [node, node]
    cases tags.find? word with
    | none => rfl
    | some kind =>
      cases kind <;> cases args <;> try rfl
      case definition.definition sig =>
        dsimp only
        rw [nodes_congr _ content h.2]
      case callBlock.callBlock e source =>
        dsimp only
        rw [nodes_congr _ content h.2]
      case importAll.importAll header =>
        have hpath : f header.path = g header.path := h.1 _ List.mem_cons_self
        simp only [importAll, hpath]
      case importNames.importNames header =>
        have hpath : f header.path = g header.path := h.1 _ List.mem_cons_self
        simp only [importNames, hpath]

/-- So do nodes. -/
lemma nodes_congr (params : List String) : ∀ ns : List Node,
    (∀ path ∈ allPaths ns, f path = g path) →
      nodes ⟨tags, file, f⟩ params ns = nodes ⟨tags, file, g⟩ params ns
  | [], _ => rfl
  | n :: rest, h => by
    rw [allPaths, List.forall_mem_append] at h
    rw [nodes, nodes, node_congr params n h.1, nodes_congr params rest h.2]

end

lemma fragments_congr (ns : List Node) (h : ∀ path ∈ allPaths ns, f path = g path) :
    fragments ⟨tags, file, f⟩ ns = fragments ⟨tags, file, g⟩ ns := by
  induction ns with
  | nil => rfl
  | cons n rest ih =>
    rw [allPaths, List.forall_mem_append] at h
    rw [fragments, fragments, fragment, fragment, node_congr [] n h.1, ih h.2]

end Congr

/-- A circle is found on one of the paths. -/
lemma Stops.circular {name : String} {chain : List String}
    (h : u.Stops ns (.circular name chain)) :
    ∃ path ∈ allPaths ns, u.imported path = .error (.circular name chain) := by
  cases h with
  | imported hpath he => exact ⟨_, hpath, he⟩

end FileScope

/-! ### The recursion along a chain -/

namespace Compiler

variable {c : Compiler}

/-- Importing the file of a path, by means of `next` for the paths in it. -/
def importBy (c : Compiler) (next : List String → String → Except Error (String × List Fragment))
    (chain : List String) (path : String) : Except Error (String × List Fragment) := do
  let file ← c.load chain.getLast? path
  if chain.contains file.name then throw (.circular file.name chain)
  if c.maxDepth ≤ chain.length then throw (.tooDeep file.name c.maxDepth)
  let nodes ← c.nodes file
  let fragments ← FileScope.fragments ⟨c.tags, file, next (chain ++ [file.name])⟩ nodes
  return (file.name, fragments)

/-- Importing the file of the first path, at the end of a chain, is to import that of the second. -/
inductive Opens (c : Compiler) : List String × String → List String × String → Prop
  | intro {chain : List String} {path path' : String} {file : SourceFile} {ns : List Node} :
      c.load chain.getLast? path = .ok file → file.name ∉ chain → chain.length < c.maxDepth →
      c.nodes file = .ok ns → path' ∈ allPaths ns →
      Opens c (chain, path) (chain ++ [file.name], path')

/-- **Imports end**, since chains get longer. -/
lemma opens_wellFounded (c : Compiler) : WellFounded fun b a => c.Opens a b := by
  refine Subrelation.wf (fun {b a} h => ?_)
    (InvImage.wf (fun a : List String × String => c.maxDepth - a.1.length) wellFounded_lt)
  obtain ⟨_, _, hlt, _, _⟩ := h
  simp only [InvImage, List.length_append, List.length_singleton]
  omega

/-- What becomes of an import depends on those that it opens, and on no others. -/
lemma importBy_congr {f g : List String → String → Except Error (String × List Fragment)}
    {chain : List String} {path : String}
    (h : ∀ chain' path', c.Opens (chain, path) (chain', path') → f chain' path' = g chain' path') :
    c.importBy f chain path = c.importBy g chain path := by
  rw [importBy, importBy]
  cases hload : c.load chain.getLast? path with
  | error e => rfl
  | ok file =>
    simp only [bind, Except.bind]
    split
    · rfl
    next hchain =>
      split
      · rfl
      next hdepth =>
        cases hns : c.nodes file with
        | error e => rfl
        | ok ns =>
          have hopens (path' : String) (hp : path' ∈ allPaths ns) :=
            h _ _ (.intro hload (by simpa using hchain) (Nat.not_le.1 hdepth) hns hp)
          simp only [FileScope.fragments_congr ns hopens]

/-- The function imports files by means of itself. -/
def Recurs (c : Compiler) (f : List String → String → Except Error (String × List Fragment)) :
    Prop :=
  ∀ chain path, f chain path = c.importBy f chain path

/-- There is at most one such function. -/
lemma Recurs.unique {f g : List String → String → Except Error (String × List Fragment)}
    (hf : c.Recurs f) (hg : c.Recurs g) : f = g := by
  suffices h : ∀ a : List String × String, f a.1 a.2 = g a.1 a.2 from
    funext fun chain => funext fun path => h (chain, path)
  intro a
  induction a using c.opens_wellFounded.induction with
  | _ a ih =>
    rw [hf, hg]
    exact importBy_congr fun chain path hopens => ih (chain, path) hopens

/-- Compiling does, with the room that the chain leaves. -/
lemma fragments_recurs (c : Compiler) :
    c.Recurs fun chain => c.fragments (c.maxDepth - chain.length) chain := by
  intro chain path
  show c.fragments (c.maxDepth - chain.length) chain path = _
  rw [importBy]
  cases hroom : c.maxDepth - chain.length with
  | zero =>
    have hdepth : c.maxDepth ≤ chain.length := by omega
    rw [fragments]
    simp only [if_pos hdepth]
    rfl
  | succ room =>
    have hdepth : ¬ c.maxDepth ≤ chain.length := by omega
    have hlonger (name : String) : c.maxDepth - (chain ++ [name]).length = room := by
      rw [List.length_append, List.length_singleton]
      omega
    rw [fragments]
    simp only [if_neg hdepth, hlonger]

end Compiler

/-! ### The graph -/

namespace Compiler

variable {c : Compiler} {entry : SourceFile}

/-- The text of the file of the given name, if the one compiled is the entry. -/
def text? (c : Compiler) (entry : SourceFile) (name : String) : Option String :=
  if name = entry.name then some entry.text else c.library.text? name

/-- The first file has a tag that imports the second one. -/
def Imports (c : Compiler) (entry : SourceFile) (importer imported : String) : Prop :=
  ∃ text ns, c.text? entry importer = some text ∧ c.nodes ⟨importer, text⟩ = .ok ns ∧
    ∃ path ∈ allPaths ns, Path.join (some importer) path = imported

/-- The files import each other, from the entry on. -/
def Chain (c : Compiler) (entry : SourceFile) (names : List String) : Prop :=
  names.head? = some entry.name ∧ names.IsChain (c.Imports entry)

/-- A file that has been loaded has the name that the path leads to. -/
lemma name_of_load {importer : Option String} {path : String} {file : SourceFile}
    (h : c.load importer path = .ok file) :
    file.name = Path.join importer path ∧ c.library.text? file.name = some file.text := by
  rw [load] at h
  split at h
  next text htext =>
    cases h
    exact ⟨rfl, htext⟩
  · cases h

lemma name_of_fragments {room : Nat} {chain : List String} {path name : String}
    {fs : List Fragment} (h : c.fragments room chain path = .ok (name, fs)) :
    name = Path.join chain.getLast? path := by
  obtain ⟨_, _, _, _, hload, rfl, _⟩ := load_of_fragments h
  exact (name_of_load hload).1

/-- What a file imports can be imported, if the file compiles. -/
lemma imported_of_imports {file : SourceFile} {ns : List Node} {is : List Instr}
    {f : String → Except Error (String × List Fragment)} {name : String}
    (htext : c.text? entry file.name = some file.text) (hns : c.nodes file = .ok ns)
    (his : FileScope.nodes ⟨c.tags, file, f⟩ [] ns = .ok is) (h : c.Imports entry file.name name) :
    ∃ path r, Path.join (some file.name) path = name ∧ f path = .ok r := by
  obtain ⟨text, ms, htext', hms, path, hp, hjoin⟩ := h
  cases htext.symm.trans htext'
  cases hns.symm.trans hms
  obtain ⟨r, hr⟩ := FileScope.imported_of_path
    (FileScope.compiles_of_nodes (legible_of_nodes hns) his)
    (Node.bare_of_ofSource (ofSource_of_nodes hns)) path hp
  exact ⟨path, r, hjoin, hr⟩

/-- The files that an imported one imports in turn use up the room, and none of them is on the
chain by which it is imported. -/
lemma chain_of_fragments {room : Nat} {chain : List String} {path name : String}
    {fs : List Fragment} (h : c.fragments room chain path = .ok (name, fs))
    (hentry : entry.name ∈ chain) {names : List String}
    (hnames : (name :: names).IsChain (c.Imports entry)) :
    names.length < room ∧ (name :: names).Nodup ∧ ∀ x ∈ name :: names, x ∉ chain := by
  induction h using imported_induction generalizing names with
  | @step room chain path file ns fs hload hnot hns hfs ih =>
    cases names with
    | nil => exact ⟨Nat.succ_pos _, List.nodup_singleton _, by simpa using hnot⟩
    | cons next rest =>
      obtain ⟨himports, hrest⟩ := List.isChain_cons_cons.1 hnames
      have htext : c.text? entry file.name = some file.text := by
        rw [text?, if_neg fun heq : file.name = entry.name => hnot (heq ▸ hentry)]
        exact (name_of_load hload).2
      obtain ⟨path', ⟨name, fs'⟩, hjoin, hr⟩ :=
        imported_of_imports htext hns (FileScope.nodes_of_fragments hfs) himports
      obtain rfl : name = next := by rw [name_of_fragments hr, List.getLast?_concat, hjoin]
      obtain ⟨hlt, hnodup, hout⟩ := ih hr (List.mem_append_left _ hentry) hrest
      simp only [List.mem_append, not_or, List.mem_singleton] at hout
      refine ⟨Nat.succ_lt_succ hlt, List.nodup_cons.2 ⟨fun hmem => (hout _ hmem).2 rfl, hnodup⟩, ?_⟩
      exact List.forall_mem_cons.2 ⟨hnot, fun x hx => (hout x hx).1⟩

/-- The chains of a page that compiles are not too long, and no file is on them twice. -/
lemma chain_of_compile {p : Program} (hp : c.compile entry = .ok p) {names : List String}
    (h : c.Chain entry names) : names.length ≤ max 1 c.maxDepth ∧ names.Nodup := by
  obtain ⟨hhead, hnames⟩ := h
  obtain ⟨ns, hns, his⟩ := nodes_of_compile hp
  obtain _ | ⟨first, rest⟩ := names
  · cases hhead
  · cases hhead
    cases rest with
    | nil => exact ⟨le_max_left _ _, List.nodup_singleton _⟩
    | cons next rest =>
      obtain ⟨himports, hrest⟩ := List.isChain_cons_cons.1 hnames
      obtain ⟨path, ⟨name, fs⟩, hjoin, hr⟩ :=
        imported_of_imports (if_pos rfl) hns his himports
      obtain rfl : name = next := (name_of_fragments hr).trans hjoin
      obtain ⟨hlt, hnodup, hout⟩ := chain_of_fragments hr (List.mem_singleton_self _) hrest
      refine ⟨?_, List.nodup_cons.2 ⟨fun hmem => hout _ hmem (List.mem_singleton_self _), hnodup⟩⟩
      have hroom : rest.length < c.maxDepth - 1 := hlt
      simp only [List.length_cons]
      omega

/-- No file is on a way from itself to itself. -/
lemma acyclic_of_compile {p : Program} (hp : c.compile entry = .ok p) {name : String}
    (h : Relation.ReflTransGen (c.Imports entry) entry.name name) :
    ¬ Relation.TransGen (c.Imports entry) name name := by
  intro hcycle
  obtain ⟨next, himports, hround⟩ := Relation.TransGen.head'_iff.1 hcycle
  obtain ⟨before, hbefore, hlast⟩ := List.exists_isChain_cons_of_relationReflTransGen h
  obtain ⟨round, hround, hend⟩ := List.exists_isChain_cons_of_relationReflTransGen hround
  have hchain : c.Chain entry ((entry.name :: before) ++ (next :: round)) := by
    refine ⟨rfl, hbefore.append hround fun x hx y hy => ?_⟩
    rw [List.getLast?_eq_getLast_of_ne_nil (List.cons_ne_nil _ _), hlast] at hx
    cases hx
    cases hy
    exact himports
  have hdisjoint := (List.nodup_append'.1 (chain_of_compile hp hchain).2).2.2
  exact hdisjoint (hlast ▸ List.getLast_mem _) (hend ▸ List.getLast_mem _)

/-- Loading a file meets no circle. -/
lemma load_ne_circular {importer : Option String} {path name : String} {chain : List String} :
    c.load importer path ≠ .error (.circular name chain) := by
  intro h
  rw [load] at h
  split at h <;> cases h

/-- Neither does reading one. -/
lemma nodes_ne_circular {file : SourceFile} {name : String} {chain : List String} :
    c.nodes file ≠ .error (.circular name chain) := by
  intro h
  rw [nodes] at h
  cases hread : Node.ofSource c.tags file.text <;> rw [hread] at h <;> cases h

/-- An import that fails because of a circle leads to a file on the chain, or has such an import in
it. -/
lemma circle_or_further {room : Nat} {chain names : List String} {path name : String}
    (h : c.fragments room chain path = .error (.circular name names)) :
    ∃ file, c.load chain.getLast? path = .ok file ∧
      (file.name ∈ chain ∧ name = file.name ∧ names = chain ∨
        ∃ room' ns, room = room' + 1 ∧ file.name ∉ chain ∧ c.nodes file = .ok ns ∧
          ∃ path' ∈ allPaths ns,
            c.fragments room' (chain ++ [file.name]) path' = .error (.circular name names)) := by
  rw [fragments.eq_def] at h
  obtain h | ⟨file, hload, h⟩ := error_of_bind h
  · exact absurd h load_ne_circular
  · refine ⟨file, hload, ?_⟩
    by_cases hmem : file.name ∈ chain
    · simp only [List.contains_iff_mem.2 hmem, if_true] at h
      cases h
      exact .inl ⟨hmem, rfl, rfl⟩
    · simp only [List.contains_iff_mem, if_neg hmem] at h
      cases room with
      | zero => cases h
      | succ room =>
        obtain h | ⟨ns, hns, h⟩ := error_of_bind h
        · exact absurd h nodes_ne_circular
        · obtain h | ⟨_, _, h⟩ := error_of_bind h
          · have hstops := FileScope.stops_of_fragments (legible_of_nodes hns) _ h
            exact .inr ⟨room, ns, rfl, hmem, hns, hstops.circular⟩
          · cases h

lemma Chain.concat {names : List String} {importer name : String} (h : c.Chain entry names)
    (hlast : names.getLast? = some importer) (himports : c.Imports entry importer name) :
    c.Chain entry (names ++ [name]) := by
  refine ⟨by rw [List.head?_append, h.1]; rfl, ?_⟩
  refine h.2.append (.singleton _) fun x hx y hy => ?_
  rw [hlast] at hx
  cases hx
  cases hy
  exact himports

/-- A circle has been met at the end of a chain. -/
lemma chain_of_circular {room : Nat} {chain names : List String} {importer path name : String}
    (h : c.fragments room chain path = .error (.circular name names))
    (hentry : entry.name ∈ chain) (hchain : c.Chain entry chain)
    (hlast : chain.getLast? = some importer)
    (himports : c.Imports entry importer (Path.join (some importer) path)) :
    c.Chain entry (names ++ [name]) ∧ name ∈ names := by
  obtain ⟨file, hload, hfile⟩ := circle_or_further h
  obtain ⟨hname, htext⟩ := name_of_load hload
  rw [hlast] at hname
  have hlonger : c.Chain entry (chain ++ [file.name]) := hchain.concat hlast (hname ▸ himports)
  obtain ⟨hmem, rfl, rfl⟩ | ⟨room', ns, rfl, hnot, hns, path', hp, hfurther⟩ := hfile
  · exact ⟨hlonger, hmem⟩
  · refine chain_of_circular hfurther (List.mem_append_left _ hentry) hlonger
      (List.getLast?_concat ..) ⟨file.text, ns, ?_, hns, path', hp, rfl⟩
    rw [text?, if_neg fun heq : file.name = entry.name => hnot (heq ▸ hentry)]
    exact htext
termination_by room

/-- A page that does not compile because of a circle has that circle. -/
lemma chain_of_compile_circular {name : String} {names : List String}
    (h : c.compile entry = .error (.circular name names)) :
    c.Chain entry (names ++ [name]) ∧ name ∈ names := by
  rw [compile] at h
  obtain h | ⟨ns, hns, h⟩ := error_of_bind h
  · exact absurd h nodes_ne_circular
  · rw [program] at h
    obtain h | ⟨_, _, h⟩ := error_of_bind h
    · obtain ⟨path, hp, hpath⟩ :=
        (FileScope.stops_of_nodes (legible_of_nodes hns) [] _ h).circular
      exact chain_of_circular hpath (List.mem_singleton_self _) ⟨rfl, .singleton _⟩ rfl
        ⟨entry.text, ns, if_pos rfl, hns, path, hp, rfl⟩
    · cases h

end Compiler

/-! ### Reports -/

/-- A list in a text, with its last item written apart. -/
lemma append_intercalate_concat (before after sep x : String) {l : List String} (hne : l ≠ []) :
    before ++ sep.intercalate l ++ (sep ++ x ++ after) =
      before ++ sep.intercalate (l ++ [x]) ++ after := by
  rw [Text.intercalate_concat sep x hne]
  simp only [String.append_assoc]

/-- The report of a circle lists the files on the chain, from the entry to the one that is on it
already. -/
lemma Error.message_circular (name : String) {names : List String} (hne : names ≠ []) :
    (Error.circular name names).message = s!"Circular import of `{name}` (chain: " ++
      " -> ".intercalate (names ++ [name]) ++ ")" :=
  append_intercalate_concat _ _ _ _ hne

/-- **Imports that compile have no circle.** Following imports ends: it goes along `Opens`, which is
well founded, what becomes of an import depends on those that it opens only, and there is one
function that recurs in this way, by which a page is compiled. If a page compiles, no file that can
be reached from it imports itself, in however many steps, and no chain of imports is longer than
allowed. If it does not because of a circle, the files listed in the report import each other from
the page on, and the last one is listed before. -/
theorem imports_acyclic (c : Compiler) (entry : SourceFile) :
    ((WellFounded fun b a => c.Opens a b) ∧
      (∀ f g chain path,
        (∀ chain' path', c.Opens (chain, path) (chain', path') → f chain' path' = g chain' path') →
          c.importBy f chain path = c.importBy g chain path) ∧
      (∃ f, c.Recurs f) ∧ ∀ f, c.Recurs f → c.scope entry = ⟨c.tags, entry, f [entry.name]⟩) ∧
    (∀ p, c.compile entry = .ok p →
      (∀ name, Relation.ReflTransGen (c.Imports entry) entry.name name →
        ¬ Relation.TransGen (c.Imports entry) name name) ∧
      ∀ names, c.Chain entry names → names.length ≤ max 1 c.maxDepth) ∧
    ∀ name names, c.compile entry = .error (.circular name names) →
      c.Chain entry (names ++ [name]) ∧ name ∈ names ∧
      (Error.circular name names).message = s!"Circular import of `{name}` (chain: " ++
        " -> ".intercalate (names ++ [name]) ++ ")" := by
  refine ⟨⟨c.opens_wellFounded, fun _ _ _ _ => Compiler.importBy_congr, ⟨_, c.fragments_recurs⟩,
    fun f hf => ?_⟩, fun p hp => ⟨fun name hname => Compiler.acyclic_of_compile hp hname,
      fun names hnames => (Compiler.chain_of_compile hp hnames).1⟩, fun name names h => ?_⟩
  · rw [hf.unique c.fragments_recurs]
    rfl
  · obtain ⟨hchain, hmem⟩ := Compiler.chain_of_compile_circular h
    exact ⟨hchain, hmem, Error.message_circular name (List.ne_nil_of_mem hmem)⟩

end Stencil
