import Stencil.Number
import Stencil.Text.Fields

/-!
Expressions. A name in a template starts out as a `var`; compiling tells the parameters of the
enclosing macros, `local`, from the entries of the context, and linking turns some references to
the context into a member of a namespace or into a `symbol`, which no template can write.

* `Expr.replace` replaces subexpressions from the outside in and leaves replacements alone.
* `Expr.resolve` replaces every `var`.
-/

namespace Stencil

/-- Constants. -/
inductive Literal where
  | nothing
  | bool (b : Bool)
  | number (n : Number)
  | string (s : String)
  deriving DecidableEq, Repr

/-- The address of a macro in the private table: the file that defines it, and its name. -/
structure Symbol where
  file : String
  name : String
  deriving DecidableEq, Repr

/-- Expressions. -/
inductive Expr where
  | literal (l : Literal)
  /-- A name whose place has not been determined. -/
  | var (name : String)
  /-- A parameter of an enclosing macro. -/
  | param (name : String)
  /-- An entry of the context. -/
  | context (name : String)
  /-- An entry of the private table. -/
  | symbol (key : Symbol)
  | member (target : Expr) (name : String)
  | index (target place : Expr)
  | list (items : List Expr)
  | map (entries : List (String × Expr))
  | call (callee : Expr) (args : List Expr) (kwargs : List (String × Expr))
  deriving Inhabited

namespace Expr

/-- Names joined by dots: the members of a variable. -/
def ofNames : List String → Expr
  | [] => .var ""
  | root :: members => members.foldl .member (.var root)

/-- The expression of a text of names joined by dots. -/
def ofPath (text : String) : Expr :=
  ofNames ((Text.fields '.' text.toList).map String.ofList)

mutual

/-- Replaces each outermost subexpression for which `f` has a replacement. -/
def replace (f : Expr → Option Expr) (e : Expr) : Expr :=
  match f e with
  | some e' => e'
  | none =>
    match e with
    | literal l => literal l
    | var name => var name
    | param name => param name
    | context name => context name
    | symbol key => symbol key
    | member target name => member (target.replace f) name
    | index target place => index (target.replace f) (place.replace f)
    | list items => list (replaceItems f items)
    | map entries => map (replaceEntries f entries)
    | call callee args kwargs =>
      call (callee.replace f) (replaceItems f args) (replaceEntries f kwargs)

/-- Replaces in each of the expressions. -/
def replaceItems (f : Expr → Option Expr) : List Expr → List Expr
  | [] => []
  | e :: rest => e.replace f :: replaceItems f rest

/-- Replaces in each of the named expressions. -/
def replaceEntries (f : Expr → Option Expr) : List (String × Expr) → List (String × Expr)
  | [] => []
  | (k, e) :: rest => (k, e.replace f) :: replaceEntries f rest

end

/-- The place of a single name: `isParam` says which names are parameters. -/
def resolveVar (isParam : String → Bool) : Expr → Option Expr
  | var name => some (if isParam name then param name else context name)
  | _ => none

/-- Determines the place of every name. -/
def resolve (isParam : String → Bool) (e : Expr) : Expr :=
  e.replace (resolveVar isParam)

/-- A short description of what is called, for messages. -/
def describe : Expr → String
  | var name | param name | context name => name
  | symbol key => key.name
  | member target name => target.describe ++ "." ++ name
  | _ => "expression"

end Expr

end Stencil
