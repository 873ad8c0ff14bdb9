import Stencil.Cli.Arguments
import Stencil.Cli.Files
import Stencil.Json.Reader
import Stencil.Outline
import Stencil.Session
import Stencil.Settings.Reader

/-!
The command line: what it prints for the files of a directory and for arguments, and how it ends.
`run` gives the exit code, the output, and the errors in the order in which they are reported.
Settings are read before any command is carried out.
-/

namespace Stencil.Cli

/-- The file of settings that is read if none is named. -/
def settingsFile : String := "templet.yaml"

/-- What the program prints if it is asked for its version. -/
def versionLine : String := "templet 0.1.0\n"

/-- How a run ends. -/
structure Outcome where
  code : Nat
  stdout : String
  errors : List Error

namespace Outcome

/-- A run that succeeds and prints a text. -/
def success (text : String) : Outcome := ⟨0, text, []⟩

/-- A run that fails with an error. -/
def failure (code : Nat) (e : Error) : Outcome := ⟨code, "", [e]⟩

/-- A run that prints a text, or fails. -/
def ofResult : Except Error String → Outcome
  | .ok text => success text
  | .error e => failure 1 e

/-- A run without a command. -/
def ofStop : Stop → Outcome
  | .misuse => ⟨2, "", []⟩
  | .help => success ""
  | .version => success versionLine

end Outcome

/-! ### Settings -/

/-- The settings in a file. Their root is relative to the directory of the file. -/
def loadSettings (f : Files) (path : String) : Except Error Settings :=
  match f.read? path with
  | none => .error (.unreadableSettings path)
  | some text =>
    match Settings.read? text with
    | none => .error .invalidSettings
    | some s => .ok { s with root := Path.inside (Path.parent path) s.root }

/-- The settings in the file that is named, or else in the usual one if it exists. -/
def discoverSettings (f : Files) (config : Option String) : Except Error Settings :=
  match config with
  | some path => loadSettings f path
  | none => if (f.read? settingsFile).isSome then loadSettings f settingsFile else .ok {}

/-! ### Commands -/

/-- The template files below the root of the settings. -/
def library (f : Files) (s : Settings) : Library where
  text? name := f.read? (Path.inside s.root name)
  location? name := some (Path.inside s.root name)

/-- The means to compile the templates below the root of the settings. -/
def compiler (f : Files) (s : Settings) : Compiler :=
  ⟨.standard, library f s, s.maxDepth⟩

/-- The context that data in JSON gives. -/
def contextOfText (text : String) : Except Error Context :=
  match Json.read? text with
  | none => .error .invalidData
  | some j => Context.ofJson j

/-- The context to render with. -/
def loadContext (f : Files) : DataSource → Except Error Context
  | .none => .ok .empty
  | .text json => contextOfText json
  | .file path =>
    match f.read? path with
    | none => .error (.unreadableData path)
    | some json => contextOfText json

/-- What a program puts out in a context. -/
def renderWith (context : Context) (p : Program) : Except Error String :=
  match Renderer.render p (.start context 0) with
  | .ok out _ => .ok out
  | .error e _ => .error (.render e)

/-- The output of a template. -/
def render (f : Files) (c : Compiler) (file : String) (data : DataSource) :
    Except Error String := do
  let context ← loadContext f data
  let program ← c.compileFile file
  renderWith context program

/-- The outlines of the nodes of a template. -/
def listing (c : Compiler) (file : String) : Except Error String := do
  let source ← c.load none file
  let nodes ← c.nodes source
  return Node.listing nodes

/-- A line on one of the tags. -/
def tagLine (k : TagKind) : String :=
  let ending := if k.hasEnd then [s!"ends with end{k.name}"] else []
  let statement := if k.isStatement then ["block"] else []
  "  " ++ k.name.pushn ' ' (8 - k.name.length) ++ " " ++ ", ".intercalate (ending ++ statement)
    ++ "\n"

/-- The lines on the tags. -/
def tagLines (tags : TagSet) : String :=
  String.join (tags.toList.map tagLine)

/-! ### Checking -/

/-- The name of the template in a file that has been found below the root. -/
def templateName (root path : String) : String :=
  let cs := Path.components path
  Path.showComponents ((Path.stripFront? (Path.components root) cs).getD cs)

/-- The names of the templates that `path` leads to from the root. -/
def templates (f : Files) (s : Settings) (path : String) : List String :=
  ((f.found (Path.inside s.root path)).filter s.isTemplate).map (templateName s.root)

/-- A template that has been compiled, and why it could not be. -/
structure Verdict where
  name : String
  error : Option Error

/-- Compiles the template of a name. -/
def verdict (c : Compiler) (name : String) : Verdict :=
  match c.compileFile name with
  | .ok _ => ⟨name, none⟩
  | .error e => ⟨name, some e⟩

/-- The line on a template that has been compiled. -/
def Verdict.line (v : Verdict) : String :=
  (if v.error.isNone then "✓ " else "✗ ") ++ v.name ++ "\n"

/-- A line that counts something, if there is something to count. -/
def countLine (label : String) (n : Nat) : String :=
  if n = 0 then "" else s!"{label}: {n}\n"

/-- How a run ends that has compiled templates. -/
def report (vs : List Verdict) : Outcome :=
  let errors := vs.filterMap Verdict.error
  let failed := errors.length
  ⟨if failed = 0 then 0 else 1,
    String.join (vs.map Verdict.line) ++ s!"\nChecked {vs.length} templates\n"
      ++ countLine "✓ Passed" (vs.length - failed) ++ countLine "✗ Failed" failed,
    errors⟩

/-! ### Runs -/

/-- Carries out a command. -/
def perform (f : Files) (s : Settings) (command : Command) : Outcome :=
  let c := compiler f s
  match command with
  | .compile file => .ofResult ((c.compileFile file).map Program.script)
  | .render file data => .ofResult (render f c file data)
  | .ast file => .ofResult (listing c file)
  | .check path => report ((templates f s path).map (verdict c))
  | .tags => .success (tagLines .standard)

/-- Does what the arguments ask for. -/
def run (f : Files) (args : List String) : Outcome :=
  match Arguments.parse args with
  | .error stop => .ofStop stop
  | .ok a =>
    match discoverSettings f a.config with
    | .error e => .failure 2 e
    | .ok s => perform f s a.command

end Stencil.Cli
