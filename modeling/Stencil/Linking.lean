import Stencil.Program

/-!
Linking the macros of an imported file. A macro that is imported no longer stands in the context
under its own name, so what its siblings say about it has to follow it to its new place. `Exports`
lists the macros that a file defines; references to other names are left as they are.

* `Exports.intoSpace` puts the macros into a namespace, and references to siblings become members
  of it.
* `Exports.selecting` puts the selected macros into the context and the rest into the private
  table, and references to the rest become symbols.
-/

namespace Stencil

/-- The macros defined at the top level of a file, in the order of their first definitions. -/
structure Exports where
  file : String
  names : List String
  deriving DecidableEq, Repr

/-- What the file shows: its fragments other than imports and macros. -/
def Fragment.markups : List Fragment → List Instr
  | [] => []
  | .markup instrs :: rest => instrs ++ markups rest
  | _ :: rest => markups rest

namespace Exports

/-- The list with a name at its end, unless the list has it already. -/
def addName (names : List String) (name : String) : List String :=
  if names.contains name then names else names ++ [name]

/-- The names of the macros among the fragments, added to `names`. -/
def collect (names : List String) : List Fragment → List String
  | [] => names
  | .definition name _ :: rest => collect (addName names name) rest
  | _ :: rest => collect names rest

/-- The macros that the fragments of a file define. -/
def ofFragments (file : String) (fragments : List Fragment) : Exports :=
  ⟨file, collect [] fragments⟩

/-- Whether the file defines a macro of that name. -/
def has (x : Exports) (name : String) : Bool :=
  x.names.contains name

/-- The place of a macro in the private table. -/
def key (x : Exports) (name : String) : Symbol :=
  ⟨x.file, name⟩

/-- Puts the definitions of macros of the file elsewhere. -/
def rebind (x : Exports) (target : String → Binding) : Instr → Instr
  | .define (.context name) m =>
    if x.has name then .define (target m.name) m else .define (.context name) m
  | i => i

/-- What a reference to a macro of the file becomes in a namespace. -/
def memberOf (x : Exports) (handle : String) : Expr → Option Expr
  | .context name => if x.has name then some (.member (.context handle) name) else none
  | _ => none

/-- What a reference to a macro of the file becomes if it is not selected. -/
def symbolOf (x : Exports) (selected : List String) : Expr → Option Expr
  | .context name =>
    if x.has name && !selected.contains name then some (.symbol (x.key name)) else none
  | _ => none

/-- Moves macros of the file into the namespace `handle`. -/
def intoSpace (x : Exports) (handle : String) (instrs : List Instr) : List Instr :=
  replaceAll (x.memberOf handle) (instrs.map (x.rebind (.member handle)))

/-- Where a macro goes if only the selected ones go into the context. -/
def selectedBinding (x : Exports) (selected : List String) (name : String) : Binding :=
  if selected.contains name then .context name else .hidden (x.key name)

/-- Moves the selected macros of the file into the context and the rest into the private table. -/
def selecting (x : Exports) (selected : List String) (instrs : List Instr) : List Instr :=
  replaceAll (x.symbolOf selected) (instrs.map (x.rebind (x.selectedBinding selected)))

/-- The instructions that bind the macros when the file is imported under a name. -/
def members (x : Exports) (handle : String) : List Fragment → List Instr
  | [] => []
  | .imported instrs :: rest => instrs ++ members x handle rest
  | .markup _ :: rest => members x handle rest
  | .definition _ instrs :: rest => x.intoSpace handle instrs ++ members x handle rest

/-- The instructions that run when macros of the file are imported by name. -/
def pick (x : Exports) (selected : List String) : List Fragment → List Instr
  | [] => []
  | .imported instrs :: rest => instrs ++ pick x selected rest
  | .markup _ :: rest => pick x selected rest
  | .definition _ instrs :: rest => x.selecting selected instrs ++ pick x selected rest

end Exports

end Stencil
