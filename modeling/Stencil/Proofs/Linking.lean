import Stencil.Cli
import Stencil.Proofs.Macros
import Stencil.Proofs.Relocation

/-!
Three ways to the same macros. A page may define macros itself, it may import the file that defines
them under a name, or it may import one of them by name. Importing moves the macros into a
namespace (`Relocation.inSpace`), or all but the one into the private table (`Relocation.aside`).
The main result is `linking_preserves_output`: as long as no name is used for two things, a call of
the macro puts out the same on all three pages, or fails on all three.
-/

namespace Stencil

/-! ### Two relocations -/

/-- A macro goes into the context if it is selected, and into the private table if not. -/
lemma Exports.selectedBinding_cases (x : Exports) (selected : List String) (n : String) :
    (selected.contains n = true ∧ x.selectedBinding selected n = .context n) ∨
      (selected.contains n = false ∧ x.selectedBinding selected n = .hidden (x.key n)) := by
  rw [selectedBinding]
  cases selected.contains n
  · exact .inr ⟨rfl, rfl⟩
  · exact .inl ⟨rfl, rfl⟩

namespace Relocation

/-- All macros are members of the namespace `handle`. -/
def inSpace (names : List String) (handle : String) : Relocation :=
  ⟨names, handle :: names, .member handle⟩

/-- The selected macros are in the context, and the others are in the private table. -/
def aside (x : Exports) (names selected : List String) (handle : String) : Relocation :=
  ⟨names, handle :: names, x.selectedBinding selected⟩

variable {names selected : List String} {handle : String} {x : Exports}

lemma inSpace_lawful (hcaller : callerName ∉ handle :: names)
    (hkwargs : kwargsName ∉ handle :: names) : (inSpace names handle).Lawful where
  names _ hn := List.mem_cons_of_mem handle hn
  caller := hcaller
  kwargs := hkwargs
  entry := by
    rintro n _ _ ⟨⟩
    exact List.mem_cons_self
  apart _ _ _ _ hne := .members hne

lemma aside_lawful (hcaller : callerName ∉ handle :: names)
    (hkwargs : kwargsName ∉ handle :: names) : (aside x names selected handle).Lawful where
  names _ hn := List.mem_cons_of_mem handle hn
  caller := hcaller
  kwargs := hkwargs
  entry := by
    intro n hn k hk
    have hplace : (x.selectedBinding selected n).root? = some k := hk
    rcases x.selectedBinding_cases selected n with ⟨_, h⟩ | ⟨_, h⟩
    · rw [h] at hplace
      cases hplace
      exact List.mem_cons_of_mem handle hn
    · rw [h] at hplace
      cases hplace
  apart := by
    intro n _ k _ hne
    show (x.selectedBinding selected n).Apart (x.selectedBinding selected k)
    rcases x.selectedBinding_cases selected n with ⟨_, hn⟩ | ⟨_, hn⟩ <;>
      rcases x.selectedBinding_cases selected k with ⟨_, hk⟩ | ⟨_, hk⟩ <;> rw [hn, hk]
    · exact .contexts hne
    · exact .contextHidden _ _
    · exact .hiddenContext _ _
    · exact .hidden fun h => hne (congrArg Symbol.name h)

/-- References to siblings become references to members of the namespace. -/
lemma relinks_memberOf (hx : ∀ n, x.has n = true ↔ n ∈ names) :
    Relinks (Expr.Compiled (· ≠ handle)) (inSpace names handle).Ref (x.memberOf handle) where
  reference := by
    rintro e _ (p | @⟨n, hn⟩)
    · exact .reference (.param p)
    · rw [Expr.replace, Exports.memberOf]
      by_cases hmem : n ∈ names
      · rw [if_pos ((hx n).2 hmem)]
        exact .reference (.moved hmem)
      · rw [if_neg (mt (hx n).1 hmem)]
        exact .reference (.kept (List.not_mem_cons_of_ne_of_not_mem hn hmem))
  other := by
    intro e he
    cases e with
    | context name => exact absurd (.context name) he
    | _ => rfl

/-- References to siblings that are not selected become symbols. -/
lemma relinks_symbolOf (hx : ∀ n, x.has n = true ↔ n ∈ names) :
    Relinks (Expr.Compiled (· ≠ handle)) (aside x names selected handle).Ref
      (x.symbolOf selected) where
  reference := by
    rintro e _ (p | @⟨n, hn⟩)
    · exact .reference (.param p)
    · rw [Expr.replace, Exports.symbolOf]
      by_cases hmem : n ∈ names
      · have hmoved : (aside x names selected handle).Ref (.context n)
          (x.selectedBinding selected n).ref := .moved hmem
        have hhas := (hx n).2 hmem
        rcases x.selectedBinding_cases selected n with ⟨hsel, h⟩ | ⟨hsel, h⟩
        · rw [h] at hmoved
          simp only [hsel, Bool.not_true, Bool.and_false]
          exact .reference hmoved
        · rw [h] at hmoved
          simp only [hhas, hsel, Bool.not_false, Bool.and_self]
          exact .reference hmoved
      · have hhas := mt (hx n).1 hmem
        simp only [hhas, Bool.false_and]
        exact .reference (.kept (List.not_mem_cons_of_ne_of_not_mem hn hmem))
  other := by
    intro e he
    cases e with
    | context name => exact absurd (.context name) he
    | _ => rfl

/-! ### Definitions in place -/

section Definitions

variable {L : Relocation} {s s' t t' : Renderer} {ms : List Macro}

/-- Data are what they are on both sides, and no macro is known yet. -/
lemma partly_start (L : Relocation) {data : Json} {context : Context}
    (h : Context.ofJson data = .ok context) (fresh : Nat) :
    L.Partly (fun _ => False) (.start context fresh) (.start context fresh) :=
  ⟨fun k _ => Context.rel_ofJson h k, fun _ _ h => h.elim, rfl⟩

/-- What is reserved may change on one side if the places of known macros do not. -/
lemma Partly.insert_reserved {known : String → Prop} (hs : L.Partly known s s') {k : String}
    (hk : k ∈ L.reserved) {v : Value} (hread : ∀ n ∈ L.names, known n →
      (s'.mapContext (·.insert k v)).read (L.place n) = s'.read (L.place n)) :
    L.Partly known s (s'.mapContext (·.insert k v)) := by
  refine ⟨fun x hx => ?_, fun n hn hknown => ?_, hs.depth⟩
  · show Option.Rel L.value (s.context.get? x) ((s'.context.insert k v).get? x)
    rw [Context.get?_insert, if_neg (ne_of_mem_of_not_mem hk hx)]
    exact hs.kept x hx
  · rw [hread n hn hknown]
    exact hs.moved n hn hknown

/-- Opening the namespace makes nothing known, and all places are in it. -/
lemma inSpace_openSpace {names : List String} {handle : String}
    (hs : (inSpace names handle).Partly (fun _ => False) s s') :
    (inSpace names handle).Partly (fun _ => False) s (s'.mapContext (·.openSpace handle)) ∧
      ∀ n ∈ (inSpace names handle).names,
        (s'.mapContext (·.openSpace handle)).Opened ((inSpace names handle).place n) := by
  have hopen := hs.insert_reserved (k := handle) (v := .space (s'.context.space handle).1
    (s'.context.space handle).2) List.mem_cons_self fun _ _ h => h.elim
  exact ⟨hopen, fun n _ => ⟨_, _, Context.get?_openSpace s'.context handle⟩⟩

/-- Giving the namespace its markup leaves the macros in it. -/
lemma inSpace_closeSpace {names : List String} {handle : String} {known : String → Prop}
    (hs : (inSpace names handle).Partly known s s')
    (hopened : ∀ n ∈ names, s'.Opened (.member handle n)) (body : List Instr) (scope : Scope) :
    (inSpace names handle).Partly known s (s'.mapContext (·.closeSpace handle body scope)) := by
  refine hs.insert_reserved List.mem_cons_self fun n hn _ => ?_
  obtain ⟨members, markup, hspace⟩ := hopened n hn
  show (((s'.context.insert handle _).get? handle).getD .undefined).member n =
    ((s'.context.get? handle).getD .undefined).member n
  rw [Context.get?_insert_self, hspace, Context.space_of hspace]
  rfl

/-- An expression in terms of the names puts out what the one in terms of the places does. -/
lemma output_sim (hL : L.Lawful) (hs : L.Partly (fun _ => True) t t') {e e' : Expr}
    (he : Expr.Rel L.Ref e e') (room : Nat) :
    Run.Matches .none (Pinned t t') (fun _ _ => True) Eq (exec (invoke room) [] [.output e] t)
      (exec (invoke room) [] [.output e'] t') :=
  hL.correspondence_lawful.exec_sim (hL.correspondence_lawful.invoke_sim room)
    (.output he .nil) .nil hs t t' (.refl t t')

/-- A page that defines macros and one that puts them elsewhere come to the same. -/
lemma definitions_sim (hL : L.Lawful) (hnames : ms.map (·.name) = L.names) {f g : Macro → Macro}
    (hms : ∀ m ∈ ms, Macro.Rel L.Ref (· ∉ L.reserved) (f m) (g m))
    (hs : L.Partly (fun _ => False) s s') (hopened : ∀ n ∈ L.names, s'.Opened (L.place n))
    (room : Nat) :
    ∃ t t', L.Partly (fun _ => True) t t' ∧ (∀ n ∈ L.names, t'.Opened (L.place n)) ∧
      (∀ rest, exec (invoke room) []
          (ms.map (fun m => .define (.context m.name) (f m)) ++ rest) s =
        exec (invoke room) [] rest t) ∧
      ∀ rest, exec (invoke room) []
          (ms.map (fun m => .define (L.place m.name) (g m)) ++ rest) s' =
        exec (invoke room) [] rest t' := by
  have hmem : ∀ m ∈ ms, m.name ∈ L.names := fun m hm => hnames ▸ List.mem_map.2 ⟨m, hm, rfl⟩
  obtain ⟨t, t', ht, hopened', hexec, hexec'⟩ := exec_definitions hL hmem hms hs hopened
  exact ⟨t, t', ht.mono fun n hn _ => .inl (hnames ▸ hn), hopened', hexec, hexec'⟩

end Definitions

end Relocation

/-! ### Pages -/

namespace Compiler

/-- What a page puts out in a context. -/
def output (c : Compiler) (page : SourceFile) (context : Context) : Except Error String := do
  let program ← c.compile page
  Cli.renderWith context program

/-- The page consists of the nodes and of an output of the expression behind them. -/
def Shows (c : Compiler) (page : SourceFile) (ns : List Node) (e : Expr) : Prop :=
  ∃ o : Output, c.nodes page = .ok (ns ++ [.output o]) ∧ o.expr = e

/-- The tag on the page imports another file under a name. -/
inductive ImportsAll (c : Compiler) (page file : SourceFile) (handle : String) : Node → Prop
  | mk {head : TagHead} {content : List Node} {path : String} {withContext : Bool} :
      head.args = .importAll ⟨path, handle, withContext⟩ →
      c.load (some page.name) path = .ok file → file.name ≠ page.name →
      ImportsAll c page file handle (.tag head content)

/-- The tag on the page imports macros of another file by name. -/
inductive ImportsNames (c : Compiler) (page file : SourceFile) (names : List String) : Node → Prop
  | mk {head : TagHead} {content : List Node} {path : String} {withContext : Bool} :
      head.args = .importNames ⟨path, names, withContext⟩ →
      c.load (some page.name) path = .ok file → file.name ≠ page.name →
      ImportsNames c page file names (.tag head content)

end Compiler

/-- The errors are of the same kind. -/
def Error.SameKind (e e' : Error) : Prop :=
  e.kind = e'.kind

/-- Both have come to the same output, or both to an error of the same kind. -/
abbrev SameResult : Except Error String → Except Error String → Prop :=
  Tally Error.SameKind Eq

/-- The nodes define macros with the given signatures, and no name in them stands for two things: no
parameter is called like a macro or like `handle`, no macro and not `handle` is called like an entry
that calls set, and no variable is called `handle`. -/
structure Unambiguous (defs : List Node) (sigs : List Signature) (handle : String) : Prop where
  defines : List.Forall₂ Node.Defines defs sigs
  params : ∀ sig ∈ sigs, ∀ p ∈ sig.params, p.name ∉ handle :: sigs.map (·.name)
  caller : callerName ∉ handle :: sigs.map (·.name)
  kwargs : kwargsName ∉ handle :: sigs.map (·.name)
  vars : ∀ n ∈ defs, handle ∉ n.vars

lemma legible_head {tags : TagSet} {head : TagHead} {content : List Node}
    (h : (Node.tag head content).Legible tags) : head.Legible tags := by
  cases h with
  | tag hhead _ => exact hhead

section Output

variable {m : String} {args : List Expr} {kwargs : List (String × Expr)}

/-- A call by name corresponds to a call of what is at the place of the macro, if the arguments
mention nothing reserved. -/
lemma call_rel {L : Relocation} (callee : Expr) (hm : m ∈ L.names)
    (hsource : (Expr.call (.var m) args kwargs).IsSource)
    (hvars : ∀ x ∈ Expr.itemVars args ++ Expr.entryVars kwargs, x ∉ L.reserved)
    (hcallee : FileScope.resolve [] callee = (L.place m).ref) :
    Expr.Rel L.Ref (FileScope.resolve [] (.call (.var m) args kwargs))
      (FileScope.resolve [] (.call callee args kwargs)) := by
  have hkept {x : String} (hx : x ∉ L.reserved) : Resolves L.Ref [].contains x := .kept hx
  rw [List.forall_mem_append] at hvars
  cases hsource with
  | call _ hargs hkwargs =>
    have hreference : Expr.Rel L.Ref (.context m) (FileScope.resolve [] callee) :=
      hcallee ▸ .reference (.moved hm)
    exact .call hreference (Expr.rel_resolveItems hargs fun x hx => hkept (hvars.1 x hx))
      (Expr.rel_resolveEntries hkwargs fun x hx => hkept (hvars.2 x hx))

end Output

/-- Programs that match when run put out the same. -/
lemma sameResult_of_matches {c : Compiler} {page page' : SourceFile} {is is' : List Instr}
    {context : Context} (h : c.compile page = .ok ⟨page.name, is⟩)
    (h' : c.compile page' = .ok ⟨page'.name, is'⟩)
    (hmatches : Run.Matches .none (fun _ _ => True) (fun _ _ => True) Eq
      (exec (invoke maxCallDepth) [] is (.start context 0))
      (exec (invoke maxCallDepth) [] is' (.start context 0))) :
    SameResult (c.output page context) (c.output page' context) := by
  rw [Compiler.output, Compiler.output, h, h']
  show SameResult (Cli.renderWith context ⟨page.name, is⟩)
    (Cli.renderWith context ⟨page'.name, is'⟩)
  rw [Cli.renderWith, Cli.renderWith, Renderer.render, Renderer.render]
  generalize exec (invoke maxCallDepth) [] is (.start context 0) = r at hmatches ⊢
  generalize exec (invoke maxCallDepth) [] is' (.start context 0) = r' at hmatches ⊢
  cases hmatches using Run.Matches.strict with
  | ok hout _ =>
    subst hout
    exact .ok rfl
  | error _ _ => exact .error rfl

section Pages

variable {c : Compiler} {page file : SourceFile} {ns defs : List Node} {e e' : Expr}
  {handle : String} {ms : List Macro} {data : Json} {context : Context}

/-- A page that consists of nodes and an output compiles to the code of the nodes and the output. -/
lemma Compiler.Shows.compile (h : c.Shows page ns e) {is : List Instr}
    (his : (c.scope page).nodes [] ns = .ok is) :
    c.compile page = .ok ⟨page.name, is ++ [.output (FileScope.resolve [] e)]⟩ := by
  obtain ⟨o, hnodes, rfl⟩ := h
  exact compile_of_nodes hnodes (FileScope.nodes_append his (FileScope.nodes_output _ o))

lemma Compiler.Shows.legible (h : c.Shows page ns e) : ∀ n ∈ ns, n.Legible c.tags := by
  obtain ⟨o, hnodes, _⟩ := h
  exact fun n hn => legible_of_nodes hnodes n (List.mem_append_left _ hn)

lemma Compiler.Shows.isSource (h : c.Shows page ns e) : e.IsSource := by
  obtain ⟨o, hnodes, rfl⟩ := h
  have hnode := legible_of_nodes hnodes _ (List.mem_append_right ns List.mem_cons_self)
  cases hnode with
  | output ho => exact ho

/-- The macros in the namespace of an import. -/
lemma importAll_matches {names : List String} (hL : (Relocation.inSpace names handle).Lawful)
    (hnames : ms.map (·.name) = names) {f g : Macro → Macro}
    (hms : ∀ m ∈ ms, Macro.Rel (Relocation.inSpace names handle).Ref (· ∉ handle :: names)
      (f m) (g m))
    (hdata : Context.ofJson data = .ok context)
    (he : Expr.Rel (Relocation.inSpace names handle).Ref e e') :
    Run.Matches .none (fun _ _ => True) (fun _ _ => True) Eq
      (exec (invoke maxCallDepth) [] (ms.map (fun m => .define (.context m.name) (f m)) ++
        [.output e]) (.start context 0))
      (exec (invoke maxCallDepth) []
        ([.bindSpace handle (ms.map fun m => .define (.member handle m.name) (g m)) []] ++
          [.output e']) (.start context 0)) := by
  obtain ⟨hopen, hopened⟩ :=
    Relocation.inSpace_openSpace (Relocation.partly_start (.inSpace names handle) hdata 0)
  obtain ⟨t, t', ht, hopened', hexec, hexec'⟩ :=
    Relocation.definitions_sim hL hnames hms hopen hopened maxCallDepth
  have hmembers : exec (invoke maxCallDepth) []
      (ms.map fun m => .define (.member handle m.name) (g m))
      ((Renderer.start context 0).mapContext (·.openSpace handle)) = .ok "" t' := by
    have hnil := hexec' []
    rwa [List.append_nil] at hnil
  have hclose := Relocation.inSpace_closeSpace ht hopened' [] []
  rw [hexec, List.singleton_append, Relocation.exec_bindSpace hmembers]
  exact (Relocation.output_sim hL hclose he maxCallDepth).mono (fun _ _ h => h) fun _ _ _ => trivial

/-- The macros that are selected, and the others aside. -/
lemma importNames_matches {x : Exports} {names selected : List String}
    (hL : (Relocation.aside x names selected handle).Lawful)
    (hnames : ms.map (·.name) = names) {f g : Macro → Macro}
    (hms : ∀ m ∈ ms, Macro.Rel (Relocation.aside x names selected handle).Ref
      (· ∉ handle :: names) (f m) (g m))
    (hdata : Context.ofJson data = .ok context)
    (he : Expr.Rel (Relocation.aside x names selected handle).Ref e e') :
    Run.Matches .none (fun _ _ => True) (fun _ _ => True) Eq
      (exec (invoke maxCallDepth) [] (ms.map (fun m => .define (.context m.name) (f m)) ++
        [.output e]) (.start context 0))
      (exec (invoke maxCallDepth) []
        (ms.map (fun m => .define (x.selectedBinding selected m.name) (g m)) ++
          [.output e']) (.start context 0)) := by
  have hopened : ∀ n ∈ names, (Renderer.start context 0).Opened (x.selectedBinding selected n) := by
    intro n _
    rcases x.selectedBinding_cases selected n with ⟨_, h⟩ | ⟨_, h⟩ <;> rw [h] <;> trivial
  obtain ⟨t, t', ht, _, hexec, hexec'⟩ := Relocation.definitions_sim hL hnames hms
    (Relocation.partly_start (.aside x names selected handle) hdata 0) hopened maxCallDepth
  have hplaces : exec (invoke maxCallDepth) []
      (ms.map (fun m => .define (x.selectedBinding selected m.name) (g m)) ++ [.output e'])
      (.start context 0) = exec (invoke maxCallDepth) [] [.output e'] t' := hexec' [.output e']
  rw [hexec, hplaces]
  exact (Relocation.output_sim hL ht he maxCallDepth).mono (fun _ _ h => h) fun _ _ _ => trivial

end Pages

/-- **Linking preserves output.** Where no name stands for two things, a call of a macro comes to
the same on a page that defines the macros of a file itself, on one that imports the file under a
name, and on one that imports the macro by name. -/
theorem linking_preserves_output {c : Compiler} (hdepth : 2 ≤ c.maxDepth)
    {file inline whole picked : SourceFile} {defs : List Node} {sigs : List Signature}
    {handle m : String} {args : List Expr} {kwargs : List (String × Expr)}
    (hfile : c.nodes file = .ok defs) (h : Unambiguous defs sigs handle)
    (hm : m ∈ sigs.map (·.name))
    (hvars : ∀ x ∈ Expr.itemVars args ++ Expr.entryVars kwargs, x ∉ handle :: sigs.map (·.name))
    (hinline : c.Shows inline defs (.call (.var m) args kwargs))
    {importAll : Node} (hall : c.ImportsAll whole file handle importAll)
    (hwhole : c.Shows whole [importAll] (.call (.member (.var handle) m) args kwargs))
    {importNames : Node} (hnames : c.ImportsNames picked file [m] importNames)
    (hpicked : c.Shows picked [importNames] (.call (.var m) args kwargs))
    {data : Json} {context : Context} (hdata : Context.ofJson data = .ok context) :
    SameResult (c.output inline context) (c.output whole context) ∧
      SameResult (c.output inline context) (c.output picked context) := by
  let names := sigs.map (·.name)
  obtain ⟨ms, hmsNames, hrel, hms⟩ := FileScope.nodes_of_defines (· ∉ handle :: names)
    h.defines (Compiler.legible_of_nodes hfile)
    (fun n hn x hx => fun hxh : x = handle => h.vars n hn (hxh ▸ hx)) h.params
  have hinlineCompile := hinline.compile (hms (c.scope inline) rfl).1
  have hfragments := fun u hu => (hms u hu).2
  let x := Exports.ofFragments file.name (ms.map (Macro.fragment file.name))
  have hhas : ∀ n, x.has n = true ↔ n ∈ names := fun n => by rw [Exports.has_iff, hmsNames]
  constructor
  · obtain @⟨head, content, path, withContext, hargs, hload, hname⟩ := hall
    have hhead := legible_head (hwhole.legible _ List.mem_cons_self)
    have hcompile := hwhole.compile (FileScope.nodes_singleton (FileScope.node_importAll hhead hargs
      (Compiler.imported_eq hdepth hload hname hfile hfragments)))
    have he := call_rel (L := .inSpace names handle) (.member (.var handle) m) hm hinline.isSource
      hvars rfl
    refine sameResult_of_matches hinlineCompile hcompile (importAll_matches
      (Relocation.inSpace_lawful h.caller h.kwargs) hmsNames (fun m hm => ?_) hdata he)
    exact ((hrel m hm).writtenIn _ _).replace (Relocation.relinks_memberOf hhas)
  · obtain @⟨head, content, path, withContext, hargs, hload, hname⟩ := hnames
    have hhead := legible_head (hpicked.legible _ List.mem_cons_self)
    have hselected : ∀ n ∈ [m], n ∈ ms.map (·.name) := by simpa [hmsNames] using hm
    have hcompile := hpicked.compile (FileScope.nodes_singleton (FileScope.node_importNames hhead
      hargs (Compiler.imported_eq hdepth hload hname hfile hfragments) hselected))
    have hplace : (x.selectedBinding [m] m).ref = .context m := by
      simp [Exports.selectedBinding, Binding.ref]
    have he := call_rel (L := .aside x names [m] handle) (.var m) hm hinline.isSource hvars
      hplace.symm
    refine sameResult_of_matches hinlineCompile hcompile (importNames_matches
      (Relocation.aside_lawful h.caller h.kwargs) hmsNames (fun m hm => ?_) hdata he)
    exact ((hrel m hm).writtenIn _ _).replace (Relocation.relinks_symbolOf hhas)

open Greeting in
/-- The pages of the example: the macro called has a default that calls the other one. -/
theorem greeting_linked :
    compiler.output ⟨"page", inline⟩ context = .ok "Hi <Ada>" ∧
    SameResult (compiler.output ⟨"page", inline⟩ context)
      (compiler.output ⟨"page", whole⟩ context) ∧
    SameResult (compiler.output ⟨"page", inline⟩ context)
      (compiler.output ⟨"page", picked⟩ context) := by
  have hunambiguous : Unambiguous definitions signatures "w" :=
    ⟨definitions_define, by decide, by decide, by decide, by decide +kernel⟩
  have hinline : compiler.Shows ⟨"page", inline⟩ definitions
      (.call (.var "hi") [.var "name"] []) := ⟨_, inline_read, rfl⟩
  refine ⟨?_, linking_preserves_output (by decide) library_read hunambiguous (m := "hi")
    (by decide) (by decide) hinline (.mk rfl library_loaded (by decide)) ⟨_, whole_read, rfl⟩
    (.mk rfl library_loaded (by decide)) ⟨_, picked_read, rfl⟩ data_read⟩
  have hcompile := hinline.compile (nodes_definitions (u := compiler.scope ⟨"page", inline⟩) rfl)
  rw [Compiler.output, hcompile]
  rfl

end Stencil
