import Stencil.Render
import Stencil.Script
import Stencil.Store
import Stencil.Token.Lexer

/-!
A session: template files, one renderer that all programs run on, and contexts put aside. What a
program defines is there for the next one, also when the program has failed halfway.
-/

namespace Stencil

/-- How many files a chain of imports may have if nothing else is said. -/
def defaultMaxDepth : Nat := 64

/-- The expression of a text, with errors pointing into a file called `name`. -/
def Expr.ofSource (name text : String) : Except Error Expr :=
  let read := do
    let ts ← Token.tokenize text.toList 0 1
    Expr.ofTokens ts
  read.mapError (.malformed ⟨name, text⟩)

/-- The program of a text called `name`, or of the file of that name if no text is given. -/
def Compiler.compileEntry (c : Compiler) (name : String) (text : Option String) :
    Except Error Program :=
  match text with
  | some text => c.compile ⟨name, text⟩
  | none => c.compileFile name

/-- Files, a renderer and contexts put aside. -/
structure Session where
  store : Store
  maxDepth : Nat
  renderer : Renderer
  /-- The contexts put aside, the last one first. -/
  snapshots : List Context

namespace Session

/-- A session at its start. -/
def start (store : Store) (maxDepth : Nat) : Session :=
  ⟨store, maxDepth, .start .empty 0, []⟩

/-- The means to compile the files of the session. -/
def compiler (s : Session) : Compiler :=
  s.store.compiler .standard s.maxDepth

/-- Runs `act` on the renderer of the session. -/
def run {α : Type} (s : Session) (act : Run α) : Except Error α × Session :=
  match act s.renderer with
  | .ok a r => (.ok a, { s with renderer := r })
  | .error e r => (.error (.render e), { s with renderer := r })

/-- Renders a text called `name`, or the file of that name. -/
def render (s : Session) (name : String) (text : Option String) :
    Except Error String × Session :=
  match s.compiler.compileEntry name text with
  | .ok p => s.run (Renderer.render p)
  | .error e => (.error e, s)

/-- The script of a text called `name`, or of the file of that name. -/
def script (s : Session) (name : String) (text : Option String) : Except Error String :=
  (s.compiler.compileEntry name text).map Program.script

/-- The value of an expression and what it contributes to the output. The parameters in scope are
given innermost first; `resolved` says whether the places of names are determined beforehand. -/
def evaluate (s : Session) (text : String) (scope : Scope) (resolved : Bool) :
    Except Error (Value × String) × Session :=
  match Expr.ofSource "t" text with
  | .error e => (.error e, s)
  | .ok e =>
    let e := if resolved then e.resolve (scope.flatMap (·.keys)).contains else e
    s.run do
      let v ← Renderer.evaluate scope e
      let out ← Renderer.stringify v
      return (v, out)

/-- The value of an expression outside of all macros. -/
def value (s : Session) (text : String) : Except Error Value × Session :=
  match Expr.ofSource "t" text with
  | .error e => (.error e, s)
  | .ok e => s.run (Renderer.evaluate [] e)

/-- Whether two expressions have equal values. -/
def equal (s : Session) (left right : String) : Except Error Bool × Session :=
  match s.value left with
  | (.error e, s) => (.error e, s)
  | (.ok v, s) =>
    match s.value right with
    | (.error e, s) => (.error e, s)
    | (.ok w, s) => (.ok (v.equals w), s)

/-- The session with another context and an empty private table. -/
def withContext (s : Session) (c : Context) : Session :=
  { s with renderer := .start c s.renderer.fresh }

/-- The value at a name of the context, and the session with another value there, or with none. -/
def exchange (s : Session) (name : String) (v : Option Value) : Option Value × Session :=
  (s.renderer.context.get? name, s.withContext (s.renderer.context.set name v))

/-- Puts the context aside. -/
def takeSnapshot (s : Session) : Session :=
  { s with snapshots := s.renderer.context :: s.snapshots }

/-- Restores the context put aside last, if there is one. -/
def restoreSnapshot (s : Session) : Option Session :=
  match s.snapshots with
  | [] => none
  | c :: rest => some ({ s with snapshots := rest }.withContext (s.renderer.context.restore c))

end Session

end Stencil
