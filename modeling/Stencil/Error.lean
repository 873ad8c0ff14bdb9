import Stencil.SyntaxError

/-!
What can go wrong between a template and its output. An `Error` is a cause with what is needed to
report it: `Error.kind` says in which phase it arises, `Error.message` is the sentence shown,
`Error.help` the advice, `Error.file` the file it points into, and `Error.labels` the places in
that file, each with its text.
-/

namespace Stencil

open Text (Span)

/-- A template file: its name and its text. -/
structure SourceFile where
  name : String
  text : String
  deriving DecidableEq, Repr, Inhabited

/-- What can go wrong while a program runs. -/
inductive RenderError where
  /-- A call of a value that is no macro; `what` describes the value called. -/
  | notCallable (type what : String)
  /-- A call nested too deeply. -/
  | callDepth (what : String)
  deriving DecidableEq, Repr

/-- How deep calls may nest. -/
def maxCallDepth : Nat := 128

/-- What can go wrong. -/
inductive Error where
  /-- A file is malformed. -/
  | malformed (file : SourceFile) (e : SyntaxError)
  /-- A file is not there; `location` is where it was looked for, if that is worth saying. -/
  | notFound (name : String) (location : Option String)
  /-- A file imports itself by way of the chain of files. -/
  | circular (name : String) (chain : List String)
  /-- A chain of imports is too long. -/
  | tooDeep (name : String) (limit : Nat)
  /-- A macro that is imported by name is not defined in the file `source`. -/
  | undefinedMacro (file : SourceFile) (span : Span) (line : Nat) (name source : String)
      (defined : List String)
  /-- A tag of an unknown kind has been left for compiling. -/
  | unknownKind (tag : String)
  /-- A tag has arguments of another kind. -/
  | foreignArguments (tag : String) (line : Nat)
  /-- A program has failed. -/
  | render (e : RenderError)
  /-- Data to render with is no object but of another type. -/
  | notAnObject (type : String)
  /-- A file of data cannot be read. -/
  | unreadableData (path : String)
  /-- Data is not written in JSON. -/
  | invalidData
  /-- Settings cannot be read. -/
  | unreadableSettings (path : String)
  /-- Settings are malformed. -/
  | invalidSettings
  deriving DecidableEq, Repr

/-- The phases in which errors arise. -/
inductive ErrorKind where
  | malformed
  | resolving
  | compiling
  | rendering
  | internal
  deriving DecidableEq, Repr

/-- The name of a phase in messages. -/
def ErrorKind.label : ErrorKind → String
  | malformed => "Syntax"
  | resolving => "Resolve"
  | compiling => "Compile"
  | rendering => "Render"
  | internal => "Internal"

/-- The code of a phase. -/
def ErrorKind.code : ErrorKind → String
  | malformed => "templet::syntax"
  | resolving => "templet::resolve"
  | compiling => "templet::compile"
  | rendering => "templet::render"
  | internal => "templet::internal"

/-- The sentence for a failure of a program. -/
def RenderError.message : RenderError → String
  | notCallable type what => s!"Cannot call {type} value `{what}`"
  | callDepth what => s!"Maximum call depth of {maxCallDepth} exceeded calling `{what}`"

namespace Error

/-- The phase in which an error arises. -/
def kind : Error → ErrorKind
  | malformed _ _ => .malformed
  | notFound _ _ | circular _ _ | tooDeep _ _ => .resolving
  | undefinedMacro _ _ _ _ _ _ => .compiling
  | render _ | notAnObject _ | unreadableData _ | invalidData => .rendering
  | unknownKind _ | foreignArguments _ _ | unreadableSettings _ | invalidSettings => .internal

/-- The sentence shown for an error, without its phase. -/
def message : Error → String
  | malformed _ e => e.message
  | notFound name none => s!"Unable to load template `{name}`"
  | notFound name (some location) => s!"Unable to load template `{name}` ({location})"
  | circular name chain =>
    s!"Circular import of `{name}` (chain: " ++ " -> ".intercalate chain ++ s!" -> {name})"
  | tooDeep name limit => s!"Import of `{name}` exceeds the maximum import depth of {limit}"
  | undefinedMacro _ _ line name source _ =>
    s!"Macro `{name}` is not defined in `{source}` (from tag on line {line})."
  | unknownKind tag => s!"No definition for tag `{tag}`"
  | foreignArguments tag line =>
    s!"`{tag}` tag on line {line} carries arguments for a different tag"
  | render e => e.message
  | notAnObject type => s!"Render data must be a JSON object, got {type}"
  | unreadableData path => s!"Unable to read render data `{path}`"
  | invalidData => "Render data is not valid JSON"
  | unreadableSettings path => s!"Unable to read configuration `{path}`"
  | invalidSettings => "Invalid configuration"

/-- The sentence shown for an error, after its phase. -/
def report (e : Error) : String :=
  s!"{e.kind.label} error: {e.message}"

/-- The advice shown with an error. -/
def help : Error → Option String
  | malformed _ e => e.help
  | undefinedMacro _ _ _ _ source defined =>
    some (s!"`{source}` defines: " ++ ", ".intercalate defined)
  | _ => none

/-- The file an error points into. -/
def file : Error → Option SourceFile
  | malformed file _ => some file
  | undefinedMacro file _ _ _ _ _ => some file
  | _ => none

/-- The places in the file that a report marks, each with its text; the place of the error itself
comes first. -/
def labels (e : Error) : List (String × Span) :=
  match e with
  | malformed _ s => (s.message, s.span) :: s.related
  | undefinedMacro _ span _ _ _ _ => [(e.message, span)]
  | _ => []

end Error

end Stencil
