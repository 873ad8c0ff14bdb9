import Stencil.Document.Segment
import Stencil.Tag
import Stencil.Token.Lexer

/-!
Templates as trees. A tag that has an end tag contains the nodes up to it; `Builder` keeps the
nodes of the level being read together with those of the enclosing levels, and `Builder.add` puts
in one segment. `Node.read` reads the source of a template with any table of tags, and
`Node.ofSource` with tags of the language.
-/

namespace Stencil

open Text (Span bytes newlines)

/-- An expression whose value is put out. -/
structure Output where
  expr : Expr
  /-- The text of the expression, without blanks around it. -/
  source : String
  line : Nat
  span : Span
  deriving Inhabited

/-- A tag, its content left out. -/
structure TagHead where
  /-- The word the tag starts with. -/
  name : String
  args : TagArgs
  line : Nat
  /-- The place of the tag, up to its end tag if it has one. -/
  span : Span
  deriving Inhabited

/-- The nodes of a template. -/
inductive Node where
  | text (s : String)
  | output (o : Output)
  | tag (head : TagHead) (content : List Node)
  deriving Inhabited

/-- The nodes read so far. -/
structure Builder where
  /-- The nodes of the level being read. -/
  nodes : List Node
  /-- The enclosing levels, innermost first: their nodes, and the tag that is open in them. -/
  outer : List (List Node × TagHead)

namespace Builder

/-- Nothing read. -/
def empty : Builder := ⟨[], []⟩

/-- Adds a node to the level being read. -/
def push (b : Builder) (n : Node) : Builder :=
  { b with nodes := b.nodes ++ [n] }

/-- Starts the content of a tag. -/
def enter (b : Builder) (head : TagHead) : Builder :=
  ⟨[], (b.nodes, head) :: b.outer⟩

/-- Adds an output. -/
def addOutput (b : Builder) (s : Segment) : Except SyntaxError Builder :=
  let text := Text.trim s.body
  if text.isEmpty then .error ⟨.emptyOutput, s.line, s.span, []⟩
  else do
    let ts ← Token.tokenize s.body s.bodyStart s.line
    let e ← Expr.ofTokens ts
    return b.push (.output ⟨e, String.ofList text, s.line, s.span⟩)

/-- Ends the tag of the given name with an end tag, behind whose name stands `rest`. -/
def close (b : Builder) (s : Segment) (name : String) (rest : List Char) :
    Except SyntaxError Builder :=
  if !(Text.trim rest).isEmpty then .error ⟨.argumentsToEnd name, s.line, s.span, []⟩
  else
    match b.outer with
    | [] => .error ⟨.nothingToEnd name, s.line, s.span, []⟩
    | (before, head) :: outer =>
      if head.name = name then
        .ok ⟨before ++ [.tag { head with span := head.span.join s.span } b.nodes], outer⟩
      else
        .error ⟨.wrongEnd head.name name, s.line, s.span,
          [(s!"\"{head.name}\" opened here", head.span)]⟩

/-- The name of the tag that a word starting with `end` ends. -/
def ended? (tags : TagTable) (name : String) : Option String :=
  if "end".toList.isPrefixOf name.toList then
    let closed := String.ofList (name.toList.drop 3)
    if (tags.get? name).isNone && (tags.get? closed).isSome then some closed else none
  else none

/-- What the name of a tag consists of. -/
def isTagChar (c : Char) : Bool :=
  Text.isAlphanumeric c || c == '_'

/-- Adds a tag. -/
def addTag (tags : TagTable) (b : Builder) (s : Segment) : Except SyntaxError Builder :=
  let lead := s.body.takeWhile Text.isBlank
  let trimmed := s.body.dropWhile Text.isBlank
  let word := trimmed.takeWhile isTagChar
  let rest := trimmed.dropWhile isTagChar
  let name := String.ofList word
  if word.isEmpty then .error ⟨.emptyTag, s.line, s.span, []⟩
  else
    match ended? tags name with
    | some closed => b.close s closed rest
    | none =>
      match tags.get? name with
      | none => .error ⟨.unknownTag name tags.keys, s.line, s.span, []⟩
      | some reader => do
        let ts ← Token.tokenize rest (s.bodyStart + bytes (lead ++ word))
          (s.line + newlines (lead ++ word))
        let args ← reader.read ⟨s.line, s.span⟩ ts
        let head : TagHead := ⟨name, args, s.line, s.span⟩
        return if reader.hasEnd then b.enter head else b.push (.tag head [])

/-- Adds a segment. -/
def add (tags : TagTable) (b : Builder) (s : Segment) : Except SyntaxError Builder :=
  match s.kind with
  | .text => .ok (b.push (.text (String.ofList s.body)))
  | .comment => .ok b
  | .output => b.addOutput s
  | .tag => b.addTag tags s

/-- The nodes, if every tag has been ended. -/
def finish (b : Builder) : Except SyntaxError (List Node) :=
  match b.outer with
  | [] => .ok b.nodes
  | (_, head) :: _ => .error ⟨.missingEnd head.name, head.line, head.span, []⟩

end Builder

/-- The nodes of a template whose tags are in the table. -/
def Node.read (tags : TagTable) (source : String) : Except SyntaxError (List Node) := do
  let segments ← Segment.segments source.toList 0 1
  let b ← segments.foldlM (Builder.add tags) .empty
  b.finish

/-- The nodes of a template in the language. -/
def Node.ofSource (tags : TagSet) (source : String) : Except SyntaxError (List Node) :=
  Node.read tags source

end Stencil
