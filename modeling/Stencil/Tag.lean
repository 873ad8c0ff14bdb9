import Stencil.Dict
import Stencil.ImportHeader

/-!
Tags. To read a template one needs to know of each tag whether it has an end tag and how its
arguments are read, a `TagReader`; a `TagTable` gives the readers of all tags by name. The language
itself has four kinds of tags, and a `TagSet` says which of them a template may use; `TagKind.read`
turns the tokens behind the name of such a tag into its arguments.
-/

namespace Stencil

/-- The kinds of tags. -/
inductive TagKind where
  /-- Hands its content to what it calls. -/
  | callBlock
  /-- Binds macros of another file. -/
  | importNames
  /-- Binds another file under a name. -/
  | importAll
  /-- Defines a macro. -/
  | definition
  deriving DecidableEq, Repr

/-- What a tag says behind its name. -/
inductive TagArgs where
  | definition (sig : Signature)
  /-- A call, with its text. -/
  | callBlock (expr : Expr) (source : String)
  | importAll (header : ImportAll)
  | importNames (header : ImportNames)
  deriving Inhabited

namespace TagKind

/-- The word a tag starts with. -/
def name : TagKind → String
  | callBlock => "call"
  | importNames => "from"
  | importAll => "import"
  | definition => "macro"

/-- All kinds of tags, in the order of their names. -/
def all : List TagKind := [callBlock, importNames, importAll, definition]

/-- Whether the tag has content, and an end tag behind it. -/
def hasEnd : TagKind → Bool
  | callBlock | definition => true
  | importNames | importAll => false

/-- Whether the tag is a statement that may stand by itself. -/
def isStatement : TagKind → Bool
  | callBlock => false
  | definition | importNames | importAll => true

/-- The arguments of a tag, from the tokens behind its name. -/
def read (kind : TagKind) (place : Place) (ts : List Token) : Except SyntaxError TagArgs :=
  match kind with
  | definition => do
    let sig ← Signature.ofTokens place ts
    return .definition sig
  | callBlock =>
    if (Token.significant ts).isEmpty then .error (.atPlace place .missingCallExpression)
    else do
      let e ← Expr.ofTokens ts
      return .callBlock e (String.ofList (Text.trim (Token.sources ts).toList))
  | importAll => do
    let header ← ImportAll.ofTokens place ts
    return .importAll header
  | importNames => do
    let header ← ImportNames.ofTokens place ts
    return .importNames header

end TagKind

/-- What reading a template takes of a tag. -/
structure TagReader where
  /-- Whether the tag has content, and an end tag behind it. -/
  hasEnd : Bool
  /-- The arguments of the tag, from the tokens behind its name. -/
  read : Place → List Token → Except SyntaxError TagArgs

/-- How the tags of one kind are read. -/
def TagKind.reader (kind : TagKind) : TagReader := ⟨kind.hasEnd, kind.read⟩

/-- The readers of tags by name. -/
abbrev TagTable := Dict TagReader

/-- The tags that are known. -/
structure TagSet where
  has : TagKind → Bool

namespace TagSet

/-- All four tags. -/
def standard : TagSet := ⟨fun _ => true⟩

/-- The tags with the given names. -/
def ofNames (names : List String) : TagSet := ⟨fun k => names.contains k.name⟩

/-- The tags in the order of their names. -/
def toList (tags : TagSet) : List TagKind :=
  TagKind.all.filter tags.has

/-- The names of the tags, in order. -/
def names (tags : TagSet) : List String :=
  tags.toList.map TagKind.name

/-- The names of the tags as a list of quoted texts. -/
def listing (tags : TagSet) : String :=
  "[" ++ ", ".intercalate (tags.names.map Text.debugQuote) ++ "]"

/-- The tag of a name. -/
def find? (tags : TagSet) (name : String) : Option TagKind :=
  tags.toList.find? fun k => k.name == name

/-- How the tags are read. -/
def table (tags : TagSet) : TagTable :=
  tags.toList.foldr (fun k t => t.insert k.name k.reader) .empty

instance : Coe TagSet TagTable := ⟨table⟩

/-- A tag is read as its kind says. -/
theorem get?_table (tags : TagSet) (name : String) :
    tags.table.get? name = (tags.find? name).map TagKind.reader := by
  rw [table, find?]
  induction tags.toList with
  | nil => rfl
  | cons k rest ih =>
    rw [List.foldr_cons, Dict.get?_insert, List.find?_cons, ih]
    by_cases h : k.name = name
    · simp [h]
    · rw [if_neg h, beq_false_of_ne h]

end TagSet

/-- How all four tags are read. -/
abbrev TagTable.standard : TagTable := TagSet.standard

end Stencil
