import Stencil.Proofs.Abstraction.Compiling
import Stencil.Proofs.Alias

/-!
What abstraction does to the output of a page, which is nothing (`abstraction_transparent`), as long
as neither page meets the limit of calls under way. The page may be wrong and fail: then the
abstracted page fails with the same error, which is the error of compiling or that of running it.

There are two instances of an `Abstraction`, one for each way to abstract (`Abstraction.handing`,
`Abstraction.extracting`). Under both, the two pages compile alike (`FileScope.tally_defined`,
`FileScope.tally_extracted`), and begin with renderers that agree (`Abstraction.agree_start`): where
pieces are handed to a macro, after its definition.

The keyword arguments have to be hidden because they are not the same inside: the call of a call
block that is given none takes away those of the macro around it.
-/

namespace Stencil

/-! ### The instances -/

namespace Abstraction

/-- Pieces are handed to the macro of the given name. -/
def handing (name : String) : Abstraction := ⟨(· = name), (· ∈ [name, kwargsName])⟩

/-- A piece has become the body of the macro of the given name. -/
def extracting (name : String) : Abstraction := ⟨fun _ => False, (· ∈ [name, kwargsName])⟩

variable {name : String}

lemma callerName_not_mem (hcaller : name ≠ callerName) : callerName ∉ [name, kwargsName] :=
  List.not_mem_cons_of_ne_of_not_mem hcaller.symm (by decide)

lemma handing_lawful (hcaller : name ≠ callerName) (hkwargs : name ≠ kwargsName) :
    (handing name).Lawful where
  passing := by
    rintro _ rfl
    exact List.mem_cons_self
  caller := callerName_not_mem hcaller
  kwargs := List.mem_cons_of_mem _ (List.mem_singleton_self _)
  kwargs_passing := hkwargs.symm

lemma extracting_lawful (hcaller : name ≠ callerName) : (extracting name).Lawful where
  passing h := h.elim
  caller := callerName_not_mem hcaller
  kwargs := List.mem_cons_of_mem _ (List.mem_singleton_self _)
  kwargs_passing h := h

section Start

variable {data : Json} {context : Context} (hdata : Context.ofJson data = .ok context)

include hdata

/-- Data are what they are on both sides, except for what is hidden. -/
lemma agree_start {A : Abstraction} {s' : Renderer}
    (hcontext : ∀ k, ¬ A.hidden k → s'.context.get? k = context.get? k)
    (hsymbols : s'.symbols = .empty)
    (hpassing : ∀ name, A.passing name →
      ∃ i file, s'.context.get? name = some (.closure i (.passOn name file) [])) :
    A.Agree (.start context 0) s' := by
  refine ⟨fun k hk => ?_, fun key => ?_, hpassing⟩
  · rw [hcontext k hk]
    exact Context.rel_ofJson hdata k
  · rw [hsymbols]
    exact .none

/-- So they are when a passing macro has been defined first. -/
lemma agree_defined (name file : String) :
    (handing name).Agree (.start context 0)
      ((Renderer.start context 1).bind (.context name) (.closure 0 (.passOn name file) [])) := by
  refine agree_start hdata (fun k hk => ?_) rfl ?_
  · have hne : name ≠ k := fun heq => hk (heq ▸ List.mem_cons_self)
    show (context.insert name _).get? k = _
    rw [Context.get?_insert, if_neg hne]
  · rintro _ rfl
    exact ⟨0, file, Context.get?_insert_self context _ _⟩

end Start

end Abstraction

/-! ### The pages -/

namespace FileScope

variable {u : FileScope} {ns ns' : List Node} {name source : String} {line line' : Nat}
  {span span' : Text.Span}

lemma nodes_called : u.nodes [] [Node.called name source line span] =
    .ok [.output (.call (.context name) [] [])] := by
  rw [Node.called, nodes_output, resolve_call List.not_mem_nil]

/-- A page with pieces of it handed to a macro compiles to the definition of the macro and to what
corresponds to the code of the page. -/
lemma tally_defined (hA : (Abstraction.handing name).Lawful) (hcall : u.tags.has .callBlock = true)
    (hdefinition : u.tags.has .definition = true) (h : Node.Handed (· = name) ns ns')
    (hout : ∀ n ∈ ns, n.Outermost) (hlegible : ∀ n ∈ ns, n.Legible u.tags)
    (hnames : ∀ x ∈ Node.allNames ns, x ∉ [name, kwargsName])
    (hpaths : ∀ path ∈ allPaths ns, u.Shares (.handing name) path) :
    Tally Eq (fun is is' => ∃ js, is' = .define (.context name) (.passOn name u.file.name) :: js ∧
        (Abstraction.handing name).TopLevel is js) (u.nodes [] ns)
      (u.nodes []
        (Node.defined name line span [Node.called callerName source line' span'] :: ns')) := by
  have htop := tally_topLevel hA hcall h hout hlegible hnames hpaths
  rw [nodes, node_defined hdefinition, nodes_called]
  exact htop.map_right fun his => ⟨_, rfl, his⟩

/-- A page with a piece of it made the body of a macro compiles to what corresponds to its code. -/
lemma tally_extracted {before piece after : List Node}
    (hA : (Abstraction.extracting name).Lawful) (hcall : u.tags.has .callBlock = true)
    (hdefinition : u.tags.has .definition = true) (hplain : ∀ n ∈ piece, n.Plain)
    (hout : ∀ n ∈ before ++ piece ++ after, n.Outermost)
    (hlegible : ∀ n ∈ before ++ piece ++ after, n.Legible u.tags)
    (hnames : ∀ x ∈ Node.allNames (before ++ piece ++ after), x ∉ [name, kwargsName])
    (hpaths : ∀ path ∈ allPaths (before ++ piece ++ after), u.Shares (.extracting name) path) :
    Tally Eq (Abstraction.extracting name).TopLevel (u.nodes [] (before ++ piece ++ after))
      (u.nodes [] (before ++
        [Node.defined name line span piece, Node.called name source line' span'] ++ after)) := by
  rw [List.forall_mem_append, List.forall_mem_append] at hout hlegible
  rw [Node.allNames_append, Node.allNames_append, List.forall_mem_append,
    List.forall_mem_append] at hnames
  rw [allPaths_append, allPaths_append, List.forall_mem_append, List.forall_mem_append] at hpaths
  have hbefore := tally_topLevel hA hcall (.refl before) hout.1.1 hlegible.1.1 hnames.1.1 hpaths.1.1
  have hafter := tally_topLevel hA hcall (.refl after) hout.2 hlegible.2 hnames.2 hpaths.2
  have hpiece : Tally Eq (Abstraction.extracting name).TopLevel (u.nodes [] piece)
      (u.nodes [] [Node.defined name line span piece, Node.called name source line' span']) := by
    have hbody := tally_plain hA hcall (.refl piece) hlegible.1.2 hnames.1.2 hplain
      (List.forall_mem_nil _)
    rw [nodes, node_defined hdefinition, nodes_called, bind_assoc]
    exact hbody.map_right fun hcode =>
      Abstraction.TopLevel.extracted _ List.mem_cons_self id hcode
  exact tally_append (tally_append hbefore hpiece .append) hafter .append

end FileScope

/-! ### The output -/

namespace Compiler

variable {c : Compiler} {page : SourceFile} {ns ns' : List Node} {context : Context}

/-- What a page puts out in a context if it consists of the nodes. -/
def outputOf (c : Compiler) (page : SourceFile) (nodes : List Node) (context : Context) :
    Except Error String := do
  let program ← c.program page nodes
  Cli.renderWith context program

/-- That is what it puts out if it has been read as the nodes. -/
lemma output_eq (hns : c.nodes page = .ok ns) :
    c.output page context = c.outputOf page ns context := by
  rw [output, compile, hns]
  rfl

lemma outputOf_eq : c.outputOf page ns context = (c.scope page).nodes [] ns >>= fun is =>
    Cli.renderWith context ⟨page.name, is⟩ := by
  rw [outputOf, program]
  exact bind_assoc ..

/-- Nodes that compile to code that ends alike put out the same. -/
lemma outputOf_congr {R : List Instr → List Instr → Prop} {S : Renderer → Renderer → Prop}
    (h : Tally Eq R ((c.scope page).nodes [] ns) ((c.scope page).nodes [] ns'))
    (hends : ∀ {is is'}, R is is' → Run.Ends S Eq
      (exec (invoke maxCallDepth) [] is (.start context 0))
      (exec (invoke maxCallDepth) [] is' (.start context 0)))
    (hleft : ∀ what, c.outputOf page ns context ≠ .error (.render (.callDepth what)))
    (hright : ∀ what, c.outputOf page ns' context ≠ .error (.render (.callDepth what))) :
    c.outputOf page ns' context = c.outputOf page ns context := by
  rw [outputOf_eq, outputOf_eq] at *
  generalize (c.scope page).nodes [] ns = r at *
  generalize (c.scope page).nodes [] ns' = r' at *
  cases h with
  | error he => rw [he]
  | @ok is is' hr =>
    have hout (what : String) {js : List Instr}
        (h : Cli.renderWith context ⟨page.name, js⟩ ≠ .error (.render (.callDepth what))) :
        (Renderer.render ⟨page.name, js⟩).outcome (.start context 0) ≠
          .error (.callDepth what) := by
      rw [Cli.renderWith_eq] at h
      exact fun heq => h (by rw [heq]; rfl)
    show Cli.renderWith context ⟨page.name, is'⟩ = Cli.renderWith context ⟨page.name, is⟩
    rw [Cli.renderWith_eq, Cli.renderWith_eq]
    refine congrArg _ ((hends hr).outcome_eq ?_ ?_).symm
    · rintro _ ⟨_, what, rfl⟩
      exact hout what (hleft what)
    · rintro _ ⟨_, what, rfl⟩
      exact hout what (hright what)

end Compiler

/-- **Abstraction is transparent.** Take a page of which neither the page nor any file that it
involves mentions the keyword arguments, and in which macros are defined and files are imported at
the top level only. Handing pieces of it, anywhere in the page, to a new macro that puts out what it
is called with does not change what the page puts out, and neither does making a piece at the top
level the body of a new macro that is called in its place: output or error, the result is the same,
as long as neither page meets the limit of calls under way. The name of the macro is new if no file
involved mentions it, and it is not one that rendering itself gives to something. -/
theorem abstraction_transparent {c : Compiler} {page : SourceFile} {ns ns' : List Node}
    {name : String} (hns : c.nodes page = .ok ns) (habstracted : Node.Abstracted name ns ns')
    (hcall : c.tags.has .callBlock = true) (hdefinition : c.tags.has .definition = true)
    (hname : name ∉ [callerName, kwargsName])
    (hspares : ∀ file, c.Involves page file → c.Spares (· ∈ [name, kwargsName]) file)
    {data : Json} {context : Context} (hdata : Context.ofJson data = .ok context)
    (hleft : ∀ what, c.output page context ≠ .error (.render (.callDepth what)))
    (hright : ∀ what, c.outputOf page ns' context ≠ .error (.render (.callDepth what))) :
    c.outputOf page ns' context = c.output page context := by
  rw [Compiler.output_eq hns] at *
  obtain ⟨hcaller, hkwargs⟩ : name ≠ callerName ∧ name ≠ kwargsName := by simpa using hname
  obtain ⟨hout, hnames⟩ := hspares page (c.involves_self page) ns hns
  have hlegible : ∀ n ∈ ns, n.Legible (c.scope page).tags := Compiler.legible_of_nodes hns
  cases habstracted with
  | handed source line line' span span' hhanded =>
    have hA := Abstraction.handing_lawful hcaller hkwargs
    have hpaths := Compiler.shares_of_involves hA hcall hspares hns
    refine Compiler.outputOf_congr (S := (Abstraction.handing name).Agree)
      (FileScope.tally_defined hA hcall hdefinition hhanded hout hlegible hnames hpaths) ?_
      hleft hright
    rintro is _ ⟨js, rfl, his⟩
    rw [Relocation.exec_define]
    exact hA.exec_topLevel _ _ his .nil (Abstraction.agree_defined hdata name page.name)
  | extracted source line line' span span' before after hplain =>
    have hA := Abstraction.extracting_lawful hcaller
    have hpaths := Compiler.shares_of_involves hA hcall hspares hns
    refine Compiler.outputOf_congr (S := (Abstraction.extracting name).Agree)
      (FileScope.tally_extracted hA hcall hdefinition hplain hout hlegible hnames hpaths) ?_
      hleft hright
    intro is is' his
    exact hA.exec_topLevel _ _ his .nil
      (Abstraction.agree_start hdata (fun _ _ => rfl) rfl fun _ h => h.elim)

/-! ### An example -/

namespace Greeting

/-- The page that defines the macros, with the body of one handed to a macro:
`{% macro id() %}{{ caller() }}{% endmacro %}` in front, and
`{% call id() %}Hi {{ n }}{% endcall %}` in the macro `hi`. -/
def bodyHanded : List Node :=
  [.defined "id" 1 ⟨0, 44⟩ [.called callerName "caller()" 1 ⟨16, 30⟩],
    .tag ⟨"macro", .definition ⟨"b", [⟨"x", none⟩]⟩, 1, ⟨0, 39⟩⟩
      [.text "<", .output ⟨.var "x", "x", 1, ⟨17, 24⟩⟩, .text ">"],
    .tag ⟨"macro", .definition ⟨"hi", [⟨"name", none⟩,
        ⟨"n", some ⟨"b(name)", .call (.var "b") [.var "name"] []⟩⟩]⟩, 1, ⟨39, 94⟩⟩
      [.handed "id" "id()" 1 ⟨70, 110⟩ [.text "Hi ", .output ⟨.var "n", "n", 1, ⟨73, 80⟩⟩]],
    call (.var "hi") "hi(name)" 94 108]

/-- The page with the call at its end made the body of a macro:
`{% macro id() %}{{ hi(name) }}{% endmacro %}{{ id() }}`. -/
def callExtracted : List Node :=
  definitions ++ [.defined "id" 1 ⟨94, 138⟩ [call (.var "hi") "hi(name)" 94 108],
    .called "id" "id()" 1 ⟨138, 148⟩]

lemma abstracted_bodyHanded :
    Node.Abstracted "id" (definitions ++ [call (.var "hi") "hi(name)" 94 108]) bodyHanded := by
  refine .handed "caller()" 1 1 ⟨0, 44⟩ ⟨16, 30⟩ ?_
  refine .tag _ (.refl _) (.tag _ ?_ (.refl _))
  rw [← List.append_nil [Node.text "Hi ", _]]
  refine .piece "id()" 1 ⟨70, 110⟩ rfl ?_ (.refl _) .nil
  simp [Node.Plain.text, Node.Plain.output]

lemma abstracted_callExtracted :
    Node.Abstracted "id" (definitions ++ [call (.var "hi") "hi(name)" 94 108]) callExtracted := by
  have h : Node.Abstracted "id" (definitions ++ [call (.var "hi") "hi(name)" 94 108] ++ [])
      (callExtracted ++ []) :=
    .extracted "id()" 1 1 ⟨94, 138⟩ ⟨138, 148⟩ definitions []
      (List.forall_mem_singleton.2 (.output _))
  rwa [List.append_nil, List.append_nil] at h

end Greeting

open Greeting in
/-- Two abstractions of the page of the example. -/
theorem greeting_abstracted :
    compiler.output ⟨"page", inline⟩ context = .ok "Hi <Ada>" ∧
      compiler.outputOf ⟨"page", inline⟩ bodyHanded context =
        compiler.output ⟨"page", inline⟩ context ∧
      compiler.outputOf ⟨"page", inline⟩ callExtracted context =
        compiler.output ⟨"page", inline⟩ context := by
  have hpage : compiler.output ⟨"page", inline⟩ context = .ok "Hi <Ada>" := by
    rw [Compiler.output_eq inline_read]
    rfl
  have hspares : ∀ file, compiler.Involves ⟨"page", inline⟩ file →
      compiler.Spares (· ∈ ["id", kwargsName]) file := by
    intro file hfile
    rw [Compiler.eq_of_involves inline_read rfl hfile]
    intro ns hns
    cases inline_read.symm.trans hns
    refine ⟨?_, by decide⟩
    simp [definitions, call, Node.Outermost, Node.Plain.text, Node.Plain.output]
  refine ⟨hpage, ?_, ?_⟩
  · refine abstraction_transparent inline_read abstracted_bodyHanded rfl rfl (by decide) hspares
      data_read (fun what => by rw [hpage]; simp) fun what => ?_
    have hout : compiler.outputOf ⟨"page", inline⟩ bodyHanded context = .ok "Hi <Ada>" := by cbv
    rw [hout]
    simp
  · refine abstraction_transparent inline_read abstracted_callExtracted rfl rfl (by decide) hspares
      data_read (fun what => by rw [hpage]; simp) fun what => ?_
    have hout : compiler.outputOf ⟨"page", inline⟩ callExtracted context = .ok "Hi <Ada>" := by cbv
    rw [hout]
    simp

end Stencil
