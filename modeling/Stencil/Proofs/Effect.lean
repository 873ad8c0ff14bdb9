import Stencil.Proofs.Importing
import Stencil.Proofs.Macros
import Stencil.Proofs.Qualification

/-!
What importing does to a renderer. If the imported file imports nothing at its own top level, its
code is a list of macros and what it shows, and the effect is exact. Importing macros by name
changes, in the context, the names that are imported and, in the private table, the places of the
others (`Renderer.Picks`); importing the file under a name changes that entry of the context alone
(`Renderer.Fills`). What such a place has afterwards is the last macro of its name if there is one,
and what it had before if not (`Overrides`).

The main result is `importing_effect`, which also says that importing succeeds in any case, puts out
nothing and evaluates nothing.
-/

namespace Stencil

/-! ### Files that import nothing at their top level -/

/-- The macro that the instruction defines. -/
def Instr.macro? : Instr → Option Macro
  | .define _ m => some m
  | _ => none

/-- The last of the macros with the given name. -/
def Macro.last? (ms : List Macro) (name : String) : Option Macro :=
  ms.reverse.find? fun m => m.name == name

lemma Macro.last?_cons (m : Macro) (ms : List Macro) (name : String) :
    last? (m :: ms) name = (last? ms name).or (if m.name = name then some m else none) := by
  rw [last?, List.reverse_cons, List.find?_append]
  by_cases h : m.name = name <;> simp [last?, h]

namespace Program

/-- The macros that the program defines at its top level. -/
def macros (p : Program) : List Macro :=
  p.instrs.filterMap Instr.macro?

/-- The macro of that name, if the program ends up with one. -/
def macro? (p : Program) (name : String) : Option Macro :=
  Macro.last? p.macros name

/-- What the program does at its top level besides defining macros. -/
def markup (p : Program) : List Instr :=
  p.instrs.filter fun i => i.macro?.isNone

end Program

/-- The fragment is what a node becomes that imports nothing. -/
inductive Fragment.Direct : Fragment → Prop
  | definition (m : Macro) : Direct (.definition m.name [.define (.context m.name) m])
  | markup {i : Instr} : i.macro? = none → Direct (.markup [i])

/-- The node is no tag that imports a file. -/
def Node.ImportsNothing : Node → Prop
  | .tag head _ => head.args.path? = none
  | _ => True

lemma FileScope.direct_of_fragment {u : FileScope} {n : Node} {f : Fragment}
    (hn : n.ImportsNothing) (hf : u.fragment n = .ok f) : f.Direct := by
  rw [fragment] at hf
  obtain ⟨is, his, hf⟩ := ok_of_bind hf
  cases hf
  cases n with
  | text s =>
    cases his
    exact .markup rfl
  | output o =>
    cases his
    exact .markup rfl
  | tag head content =>
    obtain ⟨word, args, line, span⟩ := head
    rw [node] at his
    cases args with
    | importAll h => cases hn
    | importNames h => cases hn
    | definition sig =>
      split at his <;> try cases his
      obtain ⟨body, _, his⟩ := ok_of_bind his
      cases his
      exact .definition ⟨_, _, _, _⟩
    | callBlock e source =>
      split at his <;> try cases his
      obtain ⟨body, _, his⟩ := ok_of_bind his
      cases his
      exact .markup rfl

section Direct

variable {fragments : List Fragment} (h : ∀ f ∈ fragments, f.Direct)

include h

/-- An import of such fragments binds their macros one after the other. -/
lemma bound_eq_of_direct {x : Exports} {f : Expr → Option Expr} {target : String → Binding}
    (hx : ∀ m ∈ (fragments.flatMap Fragment.code).filterMap Instr.macro?, x.has m.name = true) :
    fragments.flatMap (Fragment.bound fun is => replaceAll f (is.map (x.rebind target))) =
      ((fragments.flatMap Fragment.code).filterMap Instr.macro?).map fun m =>
        .define (target m.name) (m.replace f) := by
  induction fragments with
  | nil => rfl
  | cons fragment rest ih =>
    rw [List.forall_mem_cons] at h
    rw [List.flatMap_cons, List.filterMap_append, List.forall_mem_append] at hx
    rw [List.flatMap_cons, List.flatMap_cons, List.filterMap_append, List.map_append, ih h.2 hx.2]
    congr 1
    obtain ⟨m⟩ | ⟨hi⟩ := h.1
    · have hm : x.has m.name = true := hx.1 m List.mem_cons_self
      simp only [Fragment.bound, List.map_cons, List.map_nil, Exports.rebind, hm, if_true]
      rfl
    · simp [Fragment.bound, Fragment.code, hi]

/-- What such fragments show is everything in them except the macros. -/
lemma markups_eq_of_direct : Fragment.markups fragments =
    (fragments.flatMap Fragment.code).filter fun i => i.macro?.isNone := by
  induction fragments with
  | nil => rfl
  | cons fragment rest ih =>
    rw [List.forall_mem_cons] at h
    rw [List.flatMap_cons, List.filter_append, ← ih h.2]
    obtain ⟨m⟩ | ⟨hi⟩ := h.1
    · rfl
    · simp [Fragment.markups, Fragment.code, hi]

/-- The exports are the names of the macros. -/
lemma has_iff_of_direct {file name : String} :
    (Exports.ofFragments file fragments).has name = true ↔
      ∃ m ∈ (fragments.flatMap Fragment.code).filterMap Instr.macro?, m.name = name := by
  rw [Exports.has_ofFragments]
  constructor
  · rintro ⟨is, hmem⟩
    obtain ⟨m⟩ | _ := h _ hmem
    exact ⟨m, List.mem_filterMap.2
      ⟨_, List.mem_flatMap.2 ⟨_, hmem, List.mem_singleton.2 rfl⟩, rfl⟩, rfl⟩
  · rintro ⟨m, hm, rfl⟩
    obtain ⟨i, hi, hmacro⟩ := List.mem_filterMap.1 hm
    obtain ⟨f, hf, hi⟩ := List.mem_flatMap.1 hi
    obtain ⟨m'⟩ | ⟨hnone⟩ := h f hf
    · cases List.mem_singleton.1 hi
      cases hmacro
      exact ⟨_, hf⟩
    · cases List.mem_singleton.1 hi
      rw [hnone] at hmacro
      cases hmacro

end Direct

/-! ### The effect -/

/-- What a place has after macros have been bound there: the last of them, closed over the scope, or
what it had before if there is none. -/
inductive Overrides (scope : Scope) : Option Macro → Option Value → Option Value → Prop
  | kept (v : Option Value) : Overrides scope none v v
  | bound (id : Nat) (m : Macro) (v : Option Value) :
      Overrides scope (some m) v (some (.closure id m scope))

/-- What is bound later counts. -/
lemma Overrides.trans {scope : Scope} {m m' : Option Macro} {v w z : Option Value}
    (h : Overrides scope m v w) (h' : Overrides scope m' w z) : Overrides scope (m'.or m) v z := by
  cases h' with
  | kept => exact h
  | bound id m' => exact .bound id m' v

lemma Overrides.ite {scope : Scope} {m : Option Macro} {v w : Option Value} {p : Prop} [Decidable p]
    (h : p → Overrides scope m v w) (hnot : ¬ p → v = w) :
    Overrides scope (if p then m else none) v w := by
  split
  next hp => exact h hp
  next hp =>
    rw [hnot hp]
    exact .kept w

namespace Renderer

/-- Of the macros, the selected ones have been put into the context, and the others into the private
table as macros of the file. Nothing else has changed. -/
structure Picks (file : String) (selected : List String) (macro? : String → Option Macro)
    (scope : Scope) (s t : Renderer) : Prop where
  depth : t.depth = s.depth
  context : ∀ name, Overrides scope (if name ∈ selected then macro? name else none)
    (s.context.get? name) (t.context.get? name)
  symbols : ∀ key : Symbol, Overrides scope
    (if key.file = file ∧ key.name ∉ selected then macro? key.name else none)
    (s.symbols.get? key) (t.symbols.get? key)

/-- The macros have been put into the namespace at a name of the context, which takes over the
members of what was there and shows the markup. Nothing else has changed. -/
structure Fills (handle : String) (macro? : String → Option Macro)
    (markup : Option (List Instr × Scope)) (scope : Scope) (s t : Renderer) : Prop where
  depth : t.depth = s.depth
  symbols : t.symbols = s.symbols
  context : ∀ name, name ≠ handle → t.context.get? name = s.context.get? name
  space : ∃ members, t.context.get? handle = some (.space members markup) ∧
    ∀ name, Overrides scope (macro? name) ((s.context.space handle).1.get? name)
      (members.get? name)

end Renderer

/-- The last macro of that name with references in it replaced. -/
def Macro.linked? (f : Expr → Option Expr) (ms : List Macro) (name : String) : Option Macro :=
  (last? ms name).map (·.replace f)

lemma Macro.linked?_cons (f : Expr → Option Expr) (m : Macro) (ms : List Macro) :
    linked? f (m :: ms) = fun name =>
      (linked? f ms name).or (if m.name = name then some (m.replace f) else none) := by
  funext name
  rw [linked?, last?_cons, linked?]
  by_cases h : m.name = name <;> cases last? ms name <;> simp [h]

namespace Exports

variable (x : Exports) {selected : List String} {name : String}

lemma root?_selectedBinding {k : String} :
    (x.selectedBinding selected name).root? = some k ↔ k ∈ selected ∧ name = k := by
  rw [selectedBinding]
  split
  next h =>
    have hmem : name ∈ selected := List.contains_iff_mem.1 h
    simp only [Binding.root?, Option.some.injEq]
    exact ⟨fun hk => ⟨hk ▸ hmem, hk⟩, And.right⟩
  next h =>
    simp only [Binding.root?, reduceCtorEq, false_iff]
    rintro ⟨hk, rfl⟩
    exact h (List.contains_iff_mem.2 hk)

end Exports

/-- The private table changes only at the place that a definition names. -/
lemma Renderer.symbols_bind (s : Renderer) (target : Binding) (v : Value) (key : Symbol) :
    (s.bind target v).symbols.get? key =
      if target = .hidden key then some v else s.symbols.get? key := by
  cases target with
  | hidden place => simp only [bind, SymbolTable.get?_insert, Binding.hidden.injEq]
  | context name => rw [if_neg (by simp)]; rfl
  | member handle name => rw [if_neg (by simp)]; rfl

section Definitions

variable {scope : Scope} {f : Expr → Option Expr} {s t u : Renderer}

namespace Renderer

namespace Picks

variable {file : String} {selected : List String} {macro? macro?' : String → Option Macro}

lemma refl (file : String) (selected : List String) (scope : Scope) (s : Renderer) :
    Picks file selected (fun _ => none) scope s s :=
  ⟨rfl, fun _ => by rw [ite_self]; exact .kept _, fun _ => by rw [ite_self]; exact .kept _⟩

lemma trans (h : Picks file selected macro? scope s t)
    (h' : Picks file selected macro?' scope t u) :
    Picks file selected (fun name => (macro?' name).or (macro? name)) scope s u := by
  refine ⟨h'.depth.trans h.depth, fun name => ?_, fun key => ?_⟩
  · have hname := (h.context name).trans (h'.context name)
    split at hname
    next hmem => rwa [if_pos hmem]
    next hmem => rwa [if_neg hmem]
  · have hkey := (h.symbols key).trans (h'.symbols key)
    split at hkey
    next hmem => rwa [if_pos hmem]
    next hmem => rwa [if_neg hmem]

/-- One definition puts the macro where it belongs. -/
lemma define (x : Exports) (selected : List String) (name : String) (m : Macro) (scope : Scope)
    (s : Renderer) : Picks x.file selected (fun k => if name = k then some m else none) scope s
      ({ s with fresh := s.fresh + 1 }.bind (x.selectedBinding selected name)
        (.closure s.fresh m scope)) := by
  have hkept (k : String) (hk : ¬ (k ∈ selected ∧ name = k)) :
      ({ s with fresh := s.fresh + 1 }.bind (x.selectedBinding selected name)
        (.closure s.fresh m scope)).context.get? k = s.context.get? k :=
    get?_bind (fun h => hk (x.root?_selectedBinding.1 h)) _
  refine ⟨by cases x.selectedBinding selected name <;> rfl,
    fun k => .ite (fun hk => .ite ?_ fun hne => ?_) fun hk => ?_,
    fun key => .ite (fun hkey => .ite (fun hname => ?_) fun hne => ?_) fun hkey => ?_⟩
  · rintro rfl
    rw [Exports.selectedBinding, if_pos (List.contains_iff_mem.2 hk)]
    show Overrides _ _ _ ((s.context.insert name _).get? name)
    rw [Context.get?_insert_self]
    exact .bound _ _ _
  · exact (hkept k fun h => hne h.2).symm
  · exact (hkept k fun h => hk h.1).symm
  · rw [symbols_bind, if_pos (x.selectedBinding_eq_hidden.2 ⟨hkey, hname⟩)]
    exact .bound _ _ _
  · rw [symbols_bind, if_neg fun h => hne (x.selectedBinding_eq_hidden.1 h).2]
  · rw [symbols_bind, if_neg fun h => hkey (x.selectedBinding_eq_hidden.1 h).1]

end Picks

end Renderer

/-- Importing macros by name puts the last macro of each name where it belongs. -/
lemma exec_picks (x : Exports) (selected : List String) (f : Expr → Option Expr) (scope : Scope)
    (ms : List Macro) (s : Renderer) :
    ∃ t, (∀ invoker, exec invoker scope (ms.map fun m =>
        .define (x.selectedBinding selected m.name) (m.replace f)) s = .ok "" t) ∧
      Renderer.Picks x.file selected (Macro.linked? f ms) scope s t := by
  induction ms generalizing s with
  | nil => exact ⟨s, fun _ => rfl, .refl x.file selected scope s⟩
  | cons m ms ih =>
    have hfirst := Renderer.Picks.define x selected m.name (m.replace f) scope s
    obtain ⟨t, hexec, hrest⟩ := ih _
    refine ⟨t, fun invoker => ?_, ?_⟩
    · rw [List.map_cons, Relocation.exec_define]
      exact hexec invoker
    · rw [Macro.linked?_cons]
      exact hfirst.trans hrest

namespace Renderer.Fills

variable {handle : String} {macro? : String → Option Macro} {markup : Option (List Instr × Scope)}

/-- Making sure of a namespace keeps its members and its markup. -/
lemma opened (handle : String) (scope : Scope) (s : Renderer) :
    Fills handle (fun _ => none) (s.context.space handle).2 scope s
      (s.mapContext (·.openSpace handle)) := by
  refine ⟨rfl, rfl, fun name hname => ?_, _, s.context.get?_openSpace handle, fun _ => .kept _⟩
  show (s.context.insert handle _).get? name = _
  rw [Context.get?_insert, if_neg (Ne.symm hname)]

/-- A definition puts one more macro into the namespace. -/
lemma define (h : Fills handle macro? markup scope s t) (name : String) (m : Macro) :
    Fills handle (fun k => (if name = k then some m else none).or (macro? k)) markup scope s
      ({ t with fresh := t.fresh + 1 }.bind (.member handle name) (.closure t.fresh m scope)) := by
  obtain ⟨members, hspace, hmembers⟩ := h.space
  refine ⟨h.depth, h.symbols, fun k hk => ?_, ?_⟩
  · show (t.context.insert handle _).get? k = _
    rw [Context.get?_insert, if_neg (Ne.symm hk), h.context k hk]
  · have hget := get?_bind_member { t with fresh := t.fresh + 1 } handle name
      (.closure t.fresh m scope)
    rw [Context.space_of hspace] at hget
    refine ⟨_, hget, fun k => (hmembers k).trans ?_⟩
    rw [Dict.get?_insert]
    split
    · exact .bound _ _ _
    · exact .kept _

/-- In the end the namespace gets its markup. -/
lemma closed (h : Fills handle macro? markup scope s t) (body : List Instr) :
    Fills handle macro? (some (body, scope)) scope s
      (t.mapContext (·.closeSpace handle body scope)) := by
  obtain ⟨members, hspace, hmembers⟩ := h.space
  refine ⟨h.depth, h.symbols, fun k hk => ?_, members, ?_, hmembers⟩
  · show (t.context.insert handle _).get? k = _
    rw [Context.get?_insert, if_neg (Ne.symm hk), h.context k hk]
  · show (t.context.insert handle _).get? handle = _
    rw [Context.get?_insert_self, Context.space_of hspace]

end Renderer.Fills

/-- Importing a file under a name puts the last macro of each name into the namespace. -/
lemma exec_fills {handle : String} {macro? : String → Option Macro}
    {markup : Option (List Instr × Scope)} (f : Expr → Option Expr) (ms : List Macro)
    (h : Renderer.Fills handle macro? markup scope s t) :
    ∃ u, (∀ invoker, exec invoker scope (ms.map fun m =>
        .define (.member handle m.name) (m.replace f)) t = .ok "" u) ∧
      Renderer.Fills handle (fun name => (Macro.linked? f ms name).or (macro? name)) markup scope
        s u := by
  induction ms generalizing t macro? with
  | nil => exact ⟨t, fun _ => rfl, h⟩
  | cons m ms ih =>
    obtain ⟨u, hexec, hu⟩ := ih (h.define m.name (m.replace f))
    refine ⟨u, fun invoker => ?_, ?_⟩
    · rw [List.map_cons, Relocation.exec_define]
      exact hexec invoker
    · rw [Macro.linked?_cons]
      simpa only [Option.or_assoc] using hu

end Definitions

/-- What a tag that imports a file does to the renderer, if the file, which is the given program on
its own, imports nothing at its top level. -/
inductive TagArgs.Effect (x : Exports) (p : Program) (scope : Scope) (s t : Renderer) :
    TagArgs → Prop
  | importNames {h : ImportNames} : (∀ n ∈ h.names, (p.macro? n).isSome) →
      s.Picks p.name h.names (Macro.linked? (x.symbolOf h.names) p.macros) scope t →
      Effect x p scope s t (.importNames h)
  | importAll {h : ImportAll} :
      s.Fills h.handle (Macro.linked? (x.memberOf h.handle) p.macros) (some (p.markup, scope))
        scope t → Effect x p scope s t (.importAll h)

/-- The effect of what such fragments become. -/
lemma TagArgs.Becomes.effect {file : String} {fragments : List Fragment} {args : TagArgs}
    {is : List Instr} (h : args.Becomes (Exports.ofFragments file fragments) fragments is)
    (hdirect : ∀ f ∈ fragments, f.Direct) (scope : Scope) (s : Renderer) :
    ∃ t, (∀ invoker, exec invoker scope is s = .ok "" t) ∧
      args.Effect (Exports.ofFragments file fragments) ⟨file, fragments.flatMap Fragment.code⟩
        scope s t := by
  let p : Program := ⟨file, fragments.flatMap Fragment.code⟩
  let x := Exports.ofFragments file fragments
  have hhas (m : Macro) (hm : m ∈ p.macros) : x.has m.name = true :=
    (has_iff_of_direct hdirect).2 ⟨m, hm, rfl⟩
  cases h with
  | @importNames h hnames =>
    obtain ⟨t, hexec, ht⟩ := exec_picks x h.names (x.symbolOf h.names) scope p.macros s
    have hpick : x.pick h.names fragments = p.macros.map fun m =>
        .define (x.selectedBinding h.names m.name) (m.replace (x.symbolOf h.names)) := by
      rw [x.pick_eq_flatMap]
      exact bound_eq_of_direct hdirect hhas
    refine ⟨t, fun invoker => hpick ▸ hexec invoker, .importNames (fun n hn => ?_) ht⟩
    obtain ⟨m, hm, hname⟩ := (has_iff_of_direct hdirect).1 (hnames n hn)
    exact List.find?_isSome.2 ⟨m, List.mem_reverse.2 hm, beq_iff_eq.2 hname⟩
  | importAll h =>
    obtain ⟨t, hexec, ht⟩ := exec_fills (x.memberOf h.handle) p.macros
      (Renderer.Fills.opened h.handle scope s)
    have hmembers : x.members h.handle fragments = p.macros.map fun m =>
        .define (.member h.handle m.name) (m.replace (x.memberOf h.handle)) := by
      rw [x.members_eq_flatMap]
      exact bound_eq_of_direct hdirect hhas
    have hmarkup : Fragment.markups fragments = p.markup := markups_eq_of_direct hdirect
    simp only [Option.or_none] at ht
    refine ⟨_, fun invoker => ?_, .importAll (ht.closed p.markup)⟩
    rw [hmembers, hmarkup, Relocation.exec_bindSpace (hexec invoker)]
    rfl

/-- **The effect of importing.** In every renderer and in every scope the code for a tag that
imports a file succeeds and puts out nothing, and nothing is evaluated while it runs. If the file
imports nothing at its own top level, then importing macros by name binds, for each name, the last
macro of that name, in the context if the name is imported and else in the private table, and
importing the file under a name puts these macros into the namespace there, which shows the rest of
the file; all else stays as it was. -/
theorem importing_effect {c : Compiler} {importers : List String} {page : SourceFile}
    {params : List String} {head : TagHead} {content : List Node} {path : String} {is : List Instr}
    (hpath : head.args.path? = some path)
    (hn : (c.within importers page).node params (.tag head content) = .ok is) :
    ∃ file p, c.load (some page.name) path = .ok file ∧ c.compile file = .ok p ∧
      ∀ scope s, ∃ t, (∀ invoker, exec invoker scope is s = .ok "" t) ∧
        (∀ room m, Moment.Reaches ⟨room, .code scope is, s⟩ m → m.task.OfCode) ∧
        ((∀ ns, c.nodes file = .ok ns → ∀ n ∈ ns, n.ImportsNothing) →
          ∃ x : Exports, x.Lists file.name p.instrs ∧ head.args.Effect x p scope s t) := by
  obtain ⟨name, fs, himported, hbecomes⟩ := FileScope.becomes_of_node hpath hn
  obtain ⟨room, file, ns, _, hload, rfl, _, hns, hfs⟩ := Compiler.load_of_fragments himported
  rw [List.getLast?_concat] at hload
  obtain ⟨_, hcompile, hown⟩ :=
    Compiler.compile_of_imported hload (Compiler.imported_of_within himported)
  have hlinks := hbecomes.links (Compiler.links_of_fragments himported)
  refine ⟨file, _, hload, hcompile, fun scope s => ?_⟩
  obtain ⟨t, ht⟩ := exec_links hlinks scope s
  refine ⟨t, ht, fun room m hm => Moment.ofCode_of_links hlinks hm, fun hnothing => ?_⟩
  have hdirect : ∀ f ∈ fs, f.Direct := FileScope.forall_fragments
    (fun n hn f => FileScope.direct_of_fragment (hnothing ns hns n hn)) hfs
  -- linking code ends with one renderer only, so this is the effect on `t`
  obtain ⟨t', ht', heffect⟩ := hbecomes.effect hdirect scope s
  cases (ht (invoke 0)).symm.trans (ht' (invoke 0))
  exact ⟨_, Exports.lists_ofFragments hown, heffect⟩

namespace Greeting

/-- The code that imports `hi` by name: the other macro goes into the private table. -/
def selected : List Instr :=
  [.define (.hidden ⟨"lib", "b"⟩) ⟨"b", [⟨"x", none⟩],
      [.text "<", .output (.param "x"), .text ">"], "lib"⟩,
    .define (.context "hi") ⟨"hi", [⟨"name", none⟩,
        ⟨"n", some (.call (.symbol ⟨"lib", "b"⟩) [.param "name"] [])⟩],
      [.text "Hi ", .output (.param "n")], "lib"⟩]

lemma picked_selects :
    (compiler.within [] ⟨"page", picked⟩).node [] importNames = .ok selected := by
  let u := compiler.scope ⟨"page", picked⟩
  have hlegible : TagHead.Legible u.tags
      ⟨"from", .importNames ⟨"lib", ["hi"], false⟩, 1, ⟨0, 26⟩⟩ :=
    ⟨.importNames, rfl, .importNames _⟩
  have hnames : ∀ n ∈ ["hi"], n ∈ compiled.map (·.name) := by decide
  exact FileScope.node_importNames hlegible rfl (library_imported picked) hnames

/-- A page that imports one of two macros, of which one refers to the other. -/
theorem picking_effect :
    (compiler.within [] ⟨"page", picked⟩).node [] importNames = .ok selected ∧
      ∃ file p, compiler.load (some "page") "lib" = .ok file ∧ compiler.compile file = .ok p ∧
        ∀ scope s, ∃ t, (∀ invoker, exec invoker scope selected s = .ok "" t) ∧
          (∀ room m, Moment.Reaches ⟨room, .code scope selected, s⟩ m → m.task.OfCode) ∧
          ((∀ ns, compiler.nodes file = .ok ns → ∀ n ∈ ns, n.ImportsNothing) →
            ∃ x : Exports, x.Lists file.name p.instrs ∧
              (TagArgs.importNames ⟨"lib", ["hi"], false⟩).Effect x p scope s t) :=
  ⟨picked_selects, importing_effect rfl picked_selects⟩

end Greeting

end Stencil
