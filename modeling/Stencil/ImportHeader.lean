import Stencil.Signature

/-!
The headers of the two tags that import a file. Both consist of one string, the path, and of words;
commas and the order of path and words are free (`Header.ofTokens`). The words `as`, `with` and
`context` only make the header read well.

* `ImportAll.ofTokens` wants a single word, the name under which the file is known.
* `ImportNames.ofTokens` wants the word `import` and then the names of the macros.
-/

namespace Stencil

/-- The parts common to both headers. -/
structure Header where
  path : String
  /-- The words other than the ones without a meaning. -/
  words : List Token
  /-- Whether `with` or `context` occurs, which has no effect. -/
  withContext : Bool

/-- Imports a file under a name. -/
structure ImportAll where
  path : String
  handle : String
  withContext : Bool
  deriving DecidableEq, Repr

/-- Imports macros of a file under their own names. -/
structure ImportNames where
  path : String
  names : List String
  withContext : Bool
  deriving DecidableEq, Repr

namespace Header

/-- What has been found of a header so far. -/
structure Found where
  path : Option String := none
  words : List Token := []
  withContext : Bool := false

/-- Takes a token of the header of a tag. -/
def Found.feed (tag : String) (f : Found) (t : Token) : Except SyntaxError Found :=
  match t.kind with
  | .blank | .comma => .ok f
  | .string =>
    if f.path.isNone then .ok { f with path := some (String.ofList (Text.unescape t.text.toList)) }
    else .error (.atToken t (.secondPath t.text))
  | .path =>
    if t.text = "as" then .ok f
    else if t.text = "with" ∨ t.text = "context" then .ok { f with withContext := true }
    else .ok { f with words := f.words ++ [t] }
  | _ => .error (.atToken t (.unexpectedInHeader t.source tag))

/-- The parts of the header of a tag. -/
def ofTokens (tag : String) (place : Place) (ts : List Token) : Except SyntaxError Header := do
  let f ← ts.foldlM (Found.feed tag) {}
  match f.path with
  | none => .error (.atPlace place (.missingPath tag))
  | some path => return ⟨path, f.words, f.withContext⟩

end Header

/-- The header of a tag that imports a file under a name. -/
def ImportAll.ofTokens (place : Place) (ts : List Token) : Except SyntaxError ImportAll := do
  let header ← Header.ofTokens "import" place ts
  match header.words with
  | [] => .error (.atPlace place .missingAlias)
  | _ :: extra :: _ => .error (.atToken extra (.strayWord extra.text))
  | [handle] =>
    if handle.isPlain then return ⟨header.path, handle.text, header.withContext⟩
    else .error (.atToken handle (.dottedAlias handle.text))

namespace ImportNames

/-- The words up to the last `import` and those behind it, if there is one. -/
def splitAtImport : List Token → Option (List Token × List Token)
  | [] => none
  | t :: rest =>
    match splitAtImport rest with
    | some (before, after) => some (t :: before, after)
    | none => if t.text = "import" then some ([], rest) else none

/-- Adds names to those in `done`, each only once. -/
def collect (done : List String) : List Token → Except SyntaxError (List String)
  | [] => .ok done
  | t :: rest =>
    if t.isPlain then collect (if done.contains t.text then done else done ++ [t.text]) rest
    else .error (.atToken t (.dottedImport t.text))

/-- The header of a tag that imports macros under their own names. -/
def ofTokens (place : Place) (ts : List Token) : Except SyntaxError ImportNames := do
  let header ← Header.ofTokens "from" place ts
  match splitAtImport header.words with
  | none => .error (.atPlace place .missingImportWord)
  | some (stray :: _, _) => .error (.atToken stray (.strayWord stray.text))
  | some ([], words) =>
    let names ← collect [] words
    if names.isEmpty then .error (.atPlace place .nothingImported)
    else return ⟨header.path, names, header.withContext⟩

end ImportNames

end Stencil
