import Stencil.Token
import Stencil.Text.Quoted

/-!
What can be wrong with the text of a template. A `SyntaxError` has a cause, a line and a place;
`SyntaxError.message` is the sentence shown, which always names the line, and `SyntaxError.help`
the advice some causes come with.
-/

namespace Stencil

open Text (Span debugQuote debugQuoteChar)

/-- The ways in which a template, its tags and its expressions can be malformed. -/
inductive SyntaxCause where
  /-- An opening delimiter without its closing one. -/
  | unclosedDelimiter
  /-- An output without an expression. -/
  | emptyOutput
  /-- A tag without a name. -/
  | emptyTag
  /-- A tag nobody has registered. -/
  | unknownTag (name : String) (available : List String)
  /-- An end tag followed by more than its name. -/
  | argumentsToEnd (name : String)
  /-- An end tag where no tag is open. -/
  | nothingToEnd (name : String)
  /-- An end tag of another tag than the one opened last. -/
  | wrongEnd (opened closed : String)
  /-- A tag still open at the end of the template. -/
  | missingEnd (name : String)
  /-- A string literal without its closing quote. -/
  | unterminatedString
  /-- A character no token starts with. -/
  | unexpectedCharacter (c : Char)
  /-- An operator, of which expressions have none. -/
  | unsupportedOperator (text : String)
  /-- A token that cannot stand where it stands in an expression. -/
  | unexpectedToken (kind : TokenKind) (source : String)
  /-- An expression that breaks off. -/
  | endOfExpression
  /-- A positional argument behind a keyword argument. -/
  | positionalAfterKeyword (name : String)
  /-- A token behind a complete signature. -/
  | afterSignature (source : String)
  /-- A signature that does not start with a name and a parenthesis. -/
  | missingCallOpener (source : String)
  /-- A parameter with a dot in its name. -/
  | dottedParameter (name : String)
  /-- An assignment that does not follow a parameter. -/
  | strayAssignment
  /-- A closing bracket without its opening one. -/
  | unbalanced (text : String)
  /-- An assignment without an expression behind it. -/
  | missingDefault (before : String)
  /-- A macro tag without a signature. -/
  | missingMacroName
  /-- A signature without its closing parenthesis. -/
  | unclosedSignature (name : String)
  /-- A parameter that is declared twice. -/
  | duplicateParameter (parameter name : String)
  /-- A token that is no part of a parameter. -/
  | unexpectedInSignature (source name : String)
  /-- A call tag without an expression. -/
  | missingCallExpression
  /-- A second path in an import header. -/
  | secondPath (literal : String)
  /-- A token that no import header holds. -/
  | unexpectedInHeader (source tag : String)
  /-- An import header without a path. -/
  | missingPath (tag : String)
  /-- An import tag without the name to bind. -/
  | missingAlias
  /-- A word too many in an import header. -/
  | strayWord (name : String)
  /-- A name to bind with a dot in it. -/
  | dottedAlias (name : String)
  /-- A from tag without the word that starts its list. -/
  | missingImportWord
  /-- A name to import with a dot in it. -/
  | dottedImport (name : String)
  /-- A from tag whose list is empty. -/
  | nothingImported
  deriving DecidableEq, Repr

namespace SyntaxCause

/-- The sentence for a cause found on a line. -/
def message (line : Nat) : SyntaxCause → String
  | unclosedDelimiter => s!"Unclosed delimiter on line {line}."
  | emptyOutput => s!"Empty output on line {line}."
  | emptyTag => s!"Empty tag on line {line}."
  | unknownTag name _ => s!"Unexpected tag \"{name}\" on line {line}."
  | argumentsToEnd name => s!"Unexpected arguments to \"end{name}\" on line {line}."
  | nothingToEnd name => s!"Unexpected end of tag \"{name}\" on line {line}."
  | wrongEnd opened closed =>
    s!"Expected end tag \"end{opened}\" on line {line}, found \"end{closed}\"."
  | missingEnd name => s!"Missing end tag \"end{name}\" for tag opened on line {line}."
  | unterminatedString => s!"Unterminated string on line {line}."
  | unexpectedCharacter c => s!"Unexpected character {debugQuoteChar c} on line {line}."
  | unsupportedOperator text =>
    s!"Operator {debugQuote text} on line {line} is not supported in expressions."
  | unexpectedToken kind source =>
    s!"Unexpected {kind.label} token {debugQuote source} on line {line}."
  | endOfExpression => s!"Unexpected end of expression on line {line}."
  | positionalAfterKeyword name =>
    s!"Positional argument after keyword argument `{name}` on line {line}."
  | afterSignature source =>
    s!"Unexpected {debugQuote source} after macro signature on line {line}."
  | missingCallOpener source =>
    s!"Expected a macro name followed by '(' on line {line}, found {debugQuote source}."
  | dottedParameter name => s!"Unexpected dot in macro argument \"{name}\" on line {line}."
  | strayAssignment => s!"Unexpected '=' in macro signature on line {line}."
  | unbalanced text => s!"Unbalanced {debugQuote text} in macro signature on line {line}."
  | missingDefault before => s!"Missing default value before {debugQuote before} on line {line}."
  | missingMacroName => s!"Missing macro name on line {line}."
  | unclosedSignature name =>
    s!"Missing ')' to close the signature of macro `{name}` on line {line}."
  | duplicateParameter parameter name =>
    s!"Duplicate parameter \"{parameter}\" in macro `{name}` on line {line}."
  | unexpectedInSignature source name =>
    s!"Unexpected {debugQuote source} in signature of macro `{name}` on line {line}."
  | missingCallExpression => s!"Missing expression in call tag on line {line}."
  | secondPath literal => s!"Unexpected string {literal} on line {line}."
  | unexpectedInHeader source tag =>
    s!"Unexpected {debugQuote source} in {tag} tag on line {line}."
  | missingPath tag => s!"Missing file path in {tag} tag on line {line}."
  | missingAlias => s!"Missing namespace alias in import tag on line {line}."
  | strayWord name => s!"Unexpected variable \"{name}\" on line {line}."
  | dottedAlias name => s!"Unexpected dot in namespace alias \"{name}\" on line {line}."
  | missingImportWord => s!"Missing `import` in from tag on line {line}."
  | dottedImport name => s!"Unexpected dot in imported name \"{name}\" on line {line}."
  | nothingImported => s!"No macro names listed in from tag on line {line}."

/-- The advice that goes with a cause. -/
def help : SyntaxCause → Option String
  | unclosedDelimiter =>
    some ("every `\x7b\x7b`, `\x7b%` and `\x7b#` needs a matching " ++
      "`\x7d\x7d`, `%\x7d` or `#\x7d`")
  | unknownTag _ available => some ("available tags: " ++ ", ".intercalate available)
  | unexpectedInHeader _ _ => some "only string literal paths are supported"
  | missingAlias => some "write `\x7b% import \"file\" as name %\x7d`"
  | missingImportWord => some "write `\x7b% from \"file\" import name %\x7d`"
  | _ => none

end SyntaxCause

/-- A malformed piece of a template. -/
structure SyntaxError where
  cause : SyntaxCause
  /-- The line the message names. -/
  line : Nat
  /-- The place of the error. -/
  span : Span
  /-- Other places that matter, each with its own text. -/
  related : List (String × Span) := []
  deriving DecidableEq, Repr

namespace SyntaxError

/-- The sentence shown for the error. -/
def message (e : SyntaxError) : String :=
  e.cause.message e.line

/-- The advice shown with the error. -/
def help (e : SyntaxError) : Option String :=
  e.cause.help

/-- An error at a token. -/
def atToken (t : Token) (cause : SyntaxCause) : SyntaxError :=
  ⟨cause, t.line, t.span, []⟩

end SyntaxError

end Stencil
