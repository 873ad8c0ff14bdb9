import Stencil.Expr

/-!
Compiled templates. A program is a list of instructions, which the renderer runs and which can
also be written as a script. Macro definitions carry the file they were written in.

`replaceAll` replaces expressions in instructions, in the bodies and the defaults of macros and in
the content of call blocks, but not in what is bound under a name by an import: that has been
linked against its own file.
-/

namespace Stencil

/-- Where a macro is put when it is defined. -/
inductive Binding where
  /-- Into the context. -/
  | context (name : String)
  /-- Into the namespace that the context has under `handle`. -/
  | member (handle name : String)
  /-- Into the private table. -/
  | hidden (key : Symbol)
  deriving DecidableEq, Repr

/-- A parameter, with the expression for a missing argument. -/
structure Param where
  name : String
  default : Option Expr
  deriving Inhabited

mutual

/-- Instructions. -/
inductive Instr where
  /-- Puts out a text. -/
  | text (s : String)
  /-- Puts out the value of an expression. -/
  | output (e : Expr)
  | define (target : Binding) (m : Macro)
  /-- Puts out the value of an expression, while `caller` stands for the body. -/
  | callBlock (body : List Instr) (e : Expr) (source : String)
  /-- Makes sure that the context has a namespace under `handle`, runs `members`, which bind into
  it, and has the namespace show what `markup` puts out. -/
  | bindSpace (handle : String) (members markup : List Instr)

/-- A macro. -/
structure Macro where
  name : String
  params : List Param
  body : List Instr
  /-- The file the macro was written in. -/
  file : String

end

instance : Inhabited Instr := ⟨.text ""⟩

/-- A piece of an imported file. -/
inductive Fragment where
  /-- What a tag of the file imports in turn. -/
  | imported (instrs : List Instr)
  /-- A macro of the file. -/
  | definition (name : String) (instrs : List Instr)
  /-- Anything else. -/
  | markup (instrs : List Instr)

/-- A compiled template. -/
structure Program where
  name : String
  instrs : List Instr

namespace Param

/-- The parameter with subexpressions of its default replaced. -/
def replace (f : Expr → Option Expr) (p : Param) : Param :=
  { p with default := p.default.map (·.replace f) }

end Param

mutual

/-- The instruction with subexpressions of its expressions replaced. -/
def Instr.replace (f : Expr → Option Expr) : Instr → Instr
  | .text s => .text s
  | .output e => .output (e.replace f)
  | .define target m => .define target (m.replace f)
  | .callBlock body e source => .callBlock (replaceAll f body) (e.replace f) source
  | .bindSpace handle members markup => .bindSpace handle members markup

/-- The macro with subexpressions of its defaults and of its body replaced. -/
def Macro.replace (f : Expr → Option Expr) : Macro → Macro
  | ⟨name, params, body, file⟩ => ⟨name, params.map (·.replace f), replaceAll f body, file⟩

/-- The instructions, each with subexpressions replaced. -/
def replaceAll (f : Expr → Option Expr) : List Instr → List Instr
  | [] => []
  | i :: rest => i.replace f :: replaceAll f rest

end

end Stencil
