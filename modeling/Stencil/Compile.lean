import Stencil.Document
import Stencil.Error
import Stencil.Linking
import Stencil.Path

/-!
From templates to programs. Within one file, `FileScope.node` compiles a node; `params` are the
parameters of the macros around it, and every other name is one of the context. Parameters do not
reach into other files, each of which is compiled on its own.

`Compiler.fragments` compiles an imported file. It gets the chain of files from the entry to the
importing file, and fails if the imported file is on the chain already or if there is no `room` for
another one, so that it ends after as many nested imports as there is room for.
-/

namespace Stencil

/-- Where template files come from. -/
structure Library where
  /-- The text of the file of a given name. -/
  text? : String → Option String
  /-- Where the file of a given name is looked for, if that is worth saying. -/
  location? : String → Option String

/-- What does not change while a template and its imports are compiled. -/
structure Compiler where
  tags : TagSet
  library : Library
  maxDepth : Nat

/-- What does not change while one file is compiled. -/
structure FileScope where
  tags : TagSet
  file : SourceFile
  /-- The name and the fragments of the file that a path refers to. -/
  imported : (path : String) → Except Error (String × List Fragment)

namespace FileScope

/-- The expression with the places of its names determined. -/
def resolve (params : List String) (e : Expr) : Expr :=
  e.resolve params.contains

/-- The parameters of a macro with their defaults compiled. -/
def params (params : List String) (sig : Signature) : List Param :=
  sig.params.map fun p => ⟨p.name, p.default.map fun d => resolve params d.expr⟩

/-- The instructions for importing a file under a name. -/
def importAll (u : FileScope) (h : ImportAll) : Except Error (List Instr) := do
  let (name, fragments) ← u.imported h.path
  let x := Exports.ofFragments name fragments
  return [.bindSpace h.handle (x.members h.handle fragments) (Fragment.markups fragments)]

/-- The instructions for importing macros by name. -/
def importNames (u : FileScope) (head : TagHead) (h : ImportNames) : Except Error (List Instr) := do
  let (name, fragments) ← u.imported h.path
  let x := Exports.ofFragments name fragments
  match h.names.find? fun n => !x.has n with
  | some missing => .error (.undefinedMacro u.file head.span head.line missing name x.names)
  | none => return x.pick h.names fragments

mutual

/-- The instructions for a node inside macros with the given parameters. -/
def node (u : FileScope) (params : List String) : Node → Except Error (List Instr)
  | .text s => .ok [.text s]
  | .output o => .ok [.output (resolve params o.expr)]
  | .tag head content =>
    match u.tags.find? head.name with
    | none => .error (.unknownKind head.name)
    | some .definition =>
      match head.args with
      | .definition sig => do
        let inner := sig.params.map (·.name) ++ params
        let body ← nodes u inner content
        return [.define (.context sig.name)
          ⟨sig.name, FileScope.params inner sig, body, u.file.name⟩]
      | _ => .error (.foreignArguments "macro" head.line)
    | some .callBlock =>
      match head.args with
      | .callBlock e source => do
        let body ← nodes u params content
        return [.callBlock body (resolve params e) source]
      | _ => .error (.foreignArguments "call" head.line)
    | some .importAll =>
      match head.args with
      | .importAll h => u.importAll h
      | _ => .error (.foreignArguments "import" head.line)
    | some .importNames =>
      match head.args with
      | .importNames h => u.importNames head h
      | _ => .error (.foreignArguments "from" head.line)

/-- The instructions for nodes. -/
def nodes (u : FileScope) (params : List String) : List Node → Except Error (List Instr)
  | [] => .ok []
  | n :: rest => do
    let is ← node u params n
    let more ← nodes u params rest
    return is ++ more

end

/-- The fragment that a node at the top level of an imported file becomes. -/
def fragment (u : FileScope) (n : Node) : Except Error Fragment := do
  let is ← u.node [] n
  return match n with
  | .tag head _ =>
    match head.args with
    | .definition sig => .definition sig.name is
    | .importAll _ | .importNames _ => .imported is
    | .callBlock _ _ => .markup is
  | .text _ | .output _ => .markup is

/-- The fragments of an imported file. -/
def fragments (u : FileScope) : List Node → Except Error (List Fragment)
  | [] => .ok []
  | n :: rest => do
    let f ← u.fragment n
    let more ← fragments u rest
    return f :: more

end FileScope

namespace Compiler

/-- The nodes of a file. -/
def nodes (c : Compiler) (file : SourceFile) : Except Error (List Node) :=
  (Node.ofSource c.tags file.text).mapError (.malformed file)

/-- The file that `path` refers to. -/
def load (c : Compiler) (importer : Option String) (path : String) : Except Error SourceFile :=
  let name := Path.join importer path
  match c.library.text? name with
  | some text => .ok ⟨name, text⟩
  | none => .error (.notFound name (c.library.location? name))

/-- The name and the fragments of the file that `path` refers to in the last file of the chain. -/
def fragments (c : Compiler) (room : Nat) (chain : List String) (path : String) :
    Except Error (String × List Fragment) := do
  let file ← c.load chain.getLast? path
  if chain.contains file.name then throw (.circular file.name chain)
  match room with
  | 0 => .error (.tooDeep file.name c.maxDepth)
  | room + 1 =>
    let nodes ← c.nodes file
    let u : FileScope := ⟨c.tags, file, c.fragments room (chain ++ [file.name])⟩
    let fragments ← u.fragments nodes
    return (file.name, fragments)

/-- How many files may follow the entry of a chain of imports. -/
def room (c : Compiler) : Nat :=
  c.maxDepth - 1

/-- The program of the entry, whose nodes have been read. -/
def program (c : Compiler) (entry : SourceFile) (nodes : List Node) : Except Error Program := do
  let u : FileScope := ⟨c.tags, entry, c.fragments c.room [entry.name]⟩
  let is ← u.nodes [] nodes
  return ⟨entry.name, is⟩

/-- The program of a file whose text is given. -/
def compile (c : Compiler) (entry : SourceFile) : Except Error Program := do
  let nodes ← c.nodes entry
  c.program entry nodes

/-- The program of the file of a given name. -/
def compileFile (c : Compiler) (path : String) : Except Error Program := do
  let entry ← c.load none path
  c.compile entry

end Compiler

end Stencil
