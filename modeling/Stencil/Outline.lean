import Stencil.Document
import Stencil.Number.Notation

/-!
Outlines of trees, for reading. An **outline** is a word, or a group of parts between an opening
and a closing text; every part of a group stands on lines of its own, indented and with a comma
behind it. `Node.outline` is the outline of a node of a template.
-/

namespace Stencil

/-- A word, or parts in brackets, each with a label in front. -/
inductive Outline where
  | word (s : String)
  | group (opening : String) (parts : List (String × Outline)) (closing : String)

namespace Outline

/-- The blanks in front of a line. -/
def margin (depth : Nat) : String :=
  "".pushn ' ' (4 * depth)

mutual

/-- The text of an outline inside `depth` groups. -/
def write (depth : Nat) : Outline → String
  | word s => s
  | group opening [] closing => opening ++ closing
  | group opening (p :: parts) closing =>
    opening ++ "\n" ++ writeParts (depth + 1) (p :: parts) ++ margin depth ++ closing

/-- The lines of the parts of a group. -/
def writeParts (depth : Nat) : List (String × Outline) → String
  | [] => ""
  | (label, o) :: rest => margin depth ++ label ++ write depth o ++ ",\n" ++ writeParts depth rest

end

/-- The text of an outline. -/
def text (o : Outline) : String :=
  o.write 0

/-- Something called `name` with parts that have no names. -/
def tuple (name : String) (parts : List Outline) : Outline :=
  group (name ++ "(") (parts.map fun o => ("", o)) ")"

/-- Something called `name` with parts that have names. -/
def record (name : String) (parts : List (String × Outline)) : Outline :=
  group (name ++ " \x7b") (parts.map fun p => (p.1 ++ ": ", p.2)) "\x7d"

/-- A list. -/
def list (items : List Outline) : Outline :=
  group "[" (items.map fun o => ("", o)) "]"

/-- Something that may be missing. -/
def option : Option Outline → Outline
  | none => word "None"
  | some o => tuple "Some" [o]

/-- A quoted text. -/
def string (s : String) : Outline :=
  word (Text.debugQuote s)

/-- A truth value. -/
def bool (b : Bool) : Outline :=
  word (if b then "true" else "false")

/-- A count. -/
def nat (n : Nat) : Outline :=
  word (toString n)

end Outline

open Outline (tuple record)

/-- The outline of a place in a text. -/
def Text.Span.outline (s : Text.Span) : Outline :=
  record "Span" [("start", .nat s.start), ("end", .nat s.stop)]

/-- The outline of a constant. -/
def Literal.outline : Literal → Outline
  | nothing => .word "None"
  | bool b => tuple "Bool" [.bool b]
  | number n => tuple "Number" [.word (Layout.debug.write n)]
  | string s => tuple "String" [.string s]

/-- The outline of an address in the private table. -/
def Symbol.outline (key : Symbol) : Outline :=
  record "SymbolKey" [("source", .string key.file), ("name", .string key.name)]

namespace Expr

mutual

/-- The outline of an expression. -/
def outline : Expr → Outline
  | literal l => tuple "Literal" [l.outline]
  | var name => tuple "Var" [.string name]
  | param name => tuple "Local" [.string name]
  | context name => tuple "Context" [.string name]
  | symbol key => tuple "Symbol" [key.outline]
  | member target name => tuple "Member" [target.outline, .string name]
  | index target place => tuple "Index" [target.outline, place.outline]
  | list items => tuple "List" [.list (outlines items)]
  | map entries => tuple "Map" [.list (entryOutlines entries)]
  | call callee args kwargs =>
    record "Call" [("callee", callee.outline), ("args", .list (outlines args)),
      ("kwargs", .list (entryOutlines kwargs))]

/-- The outlines of expressions. -/
def outlines : List Expr → List Outline
  | [] => []
  | e :: rest => e.outline :: outlines rest

/-- The outlines of named expressions. -/
def entryOutlines : List (String × Expr) → List Outline
  | [] => []
  | (k, e) :: rest => tuple "" [.string k, e.outline] :: entryOutlines rest

end

end Expr

/-- The outline of a default. -/
def Default.outline (d : Default) : Outline :=
  record "DefaultValue" [("text", .string d.text), ("expr", d.expr.outline)]

/-- The outline of a parameter. -/
def Parameter.outline (p : Parameter) : Outline :=
  record "Param" [("name", .string p.name), ("default", .option (p.default.map Default.outline))]

/-- The outline of what a tag says behind its name. -/
def TagArgs.outline : TagArgs → Outline
  | definition sig =>
    tuple "Macro" [record "MacroSignature" [("name", .string sig.name),
      ("params", .list (sig.params.map Parameter.outline))]]
  | callBlock e source =>
    tuple "Call" [record "CallArgs" [("expr", e.outline), ("source", .string source)]]
  | importAll h =>
    tuple "Import" [record "ImportArgs" [("path", .string h.path), ("alias", .string h.handle),
      ("with_context", .bool h.withContext)]]
  | importNames h =>
    tuple "From" [record "FromArgs" [("path", .string h.path),
      ("names", .list (h.names.map .string)), ("with_context", .bool h.withContext)]]

/-- The outline of an expression whose value is put out. -/
def Output.outline (o : Output) : Outline :=
  record "OutputNode" [("expr", o.expr.outline), ("source", .string o.source),
    ("line", .nat o.line), ("span", o.span.outline)]

namespace Node

mutual

/-- The outline of a node. -/
def outline : Node → Outline
  | text s => tuple "Text" [.string s]
  | output o => tuple "Output" [o.outline]
  | tag head content =>
    tuple "Tag" [record "TagNode" [("name", .string head.name), ("args", head.args.outline),
      ("content", .list (outlines content)), ("line", .nat head.line),
      ("span", head.span.outline)]]

/-- The outlines of nodes. -/
def outlines : List Node → List Outline
  | [] => []
  | n :: rest => n.outline :: outlines rest

end

end Node

/-- The outlines of the nodes of a template below each other. -/
def Node.listing (nodes : List Node) : String :=
  if nodes.isEmpty then "(empty)\n"
  else String.join (nodes.map fun n => n.outline.text ++ "\n")

end Stencil
