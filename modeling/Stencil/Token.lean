import Stencil.Text.Span

/-!
Tokens: the pieces of a tag's arguments and of an output's expression. A call opener, such as
`name(`, is one token, so that the name of a macro is told apart from a plain variable.
-/

namespace Stencil

/-- The kinds of tokens. -/
inductive TokenKind where
  | blank
  | string
  | bool
  | nothing
  | number
  /-- A name followed by a pair of parentheses with nothing between them. -/
  | emptyCall
  /-- A name followed by an opening parenthesis. -/
  | call
  /-- A name, or several joined by dots. -/
  | path
  | operator
  | assignment
  | parenOpen
  | parenClose
  | bracketOpen
  | bracketClose
  | curlyOpen
  | curlyClose
  | comma
  | colon
  deriving DecidableEq, Repr

namespace TokenKind

/-- The name of the kind in messages. -/
def label : TokenKind → String
  | blank => "Whitespace"
  | string => "String"
  | bool => "Bool"
  | nothing => "None"
  | number => "Number"
  | emptyCall => "FunctionEmpty"
  | call => "Function"
  | path => "Var"
  | operator => "Operator"
  | assignment => "Assignment"
  | parenOpen => "ParenOpen"
  | parenClose => "ParenClose"
  | bracketOpen => "BracketOpen"
  | bracketClose => "BracketClose"
  | curlyOpen => "CurlyOpen"
  | curlyClose => "CurlyClose"
  | comma => "Comma"
  | colon => "Colon"

end TokenKind

/-- A piece of source text with its place. -/
structure Token where
  kind : TokenKind
  /-- The text of the token; of a call opener the name alone. -/
  text : String
  span : Text.Span
  line : Nat
  deriving DecidableEq, Repr

namespace Token

/-- The token as source text, the parentheses of a call opener included. -/
def source (t : Token) : String :=
  match t.kind with
  | .call => t.text ++ "("
  | .emptyCall => t.text ++ "()"
  | _ => t.text

/-- The source texts of the tokens, one after the other. -/
def sources (ts : List Token) : String :=
  String.join (ts.map source)

/-- Whether the text is a name without a dot. -/
def isPlain (t : Token) : Bool :=
  !t.text.toList.contains '.'

/-- The tokens other than white space. -/
def significant (ts : List Token) : List Token :=
  ts.filter fun t => t.kind ≠ .blank

end Token

end Stencil
