import Stencil.Expr.Reader

/-!
Signatures of macros: a name and parameters, of which each may have a default. `Signature.ofTokens`
reads one from the tokens behind the word that starts the tag.

The reader goes through the tokens once and keeps count of the brackets that are open inside a
default (`Partial.depth`), so that only a comma or a closing parenthesis outside of all brackets
ends a parameter. `Partial.feed` takes one token, and `collect` turns the pieces found into
parameters once the closing parenthesis has come.
-/

namespace Stencil

open Text (Span)

/-- A default: its text without the white space, and the expression. -/
structure Default where
  text : String
  expr : Expr
  deriving Inhabited

/-- A parameter of a macro. -/
structure Parameter where
  name : String
  default : Option Default
  deriving Inhabited

/-- What a macro is called and which parameters it has. -/
structure Signature where
  name : String
  params : List Parameter
  deriving Inhabited

/-- Where a tag stands: the line it starts on and all of its text. -/
structure Place where
  line : Nat
  span : Span
  deriving DecidableEq, Repr

/-- An error of a tag as a whole. -/
def SyntaxError.atPlace (p : Place) (cause : SyntaxCause) : SyntaxError :=
  ⟨cause, p.line, p.span, []⟩

namespace Signature

/-- What stands between the parentheses of a signature. -/
inductive Piece where
  | param (t : Token) (default : Option Default)
  | comma (t : Token)
  /-- A token that belongs to no default. -/
  | other (t : Token)

/-- A signature whose closing parenthesis has not come yet. -/
structure Partial where
  name : String
  /-- How many brackets are open inside the parentheses. -/
  depth : Nat
  pieces : List Piece
  /-- The parameter whose default is being read, and the tokens of the default so far. -/
  pending : Option (Token × List Token)

/-- How far a signature has been read. -/
inductive State where
  | start
  | opened (p : Partial)
  | closed (name : String) (pieces : List Piece)

namespace Partial

/-- Takes a token that ends nothing. -/
def keep (p : Partial) (t : Token) : Partial :=
  match p.pending with
  | some (q, ts) => { p with pending := some (q, ts ++ [t]) }
  | none => { p with pieces := p.pieces ++ [.other t] }

/-- The pieces with the default that the token `t` ends, if one is being read. -/
def settle (p : Partial) (t : Token) : Except SyntaxError (List Piece) :=
  match p.pending with
  | none => .ok p.pieces
  | some (_, []) => .error (.atToken t (.missingDefault t.text))
  | some (q, first :: ts) => do
    let e ← Expr.ofTokens (first :: ts)
    return p.pieces ++ [.param q (some ⟨Token.sources (first :: ts), e⟩)]

/-- The parameter behind which an assignment may come. -/
def assignable? (p : Partial) : Option Token :=
  match p.pending, p.pieces.getLast? with
  | none, some (.param q none) => some q
  | _, _ => none

/-- Takes a token inside the parentheses. -/
def feed (p : Partial) (t : Token) : Except SyntaxError State :=
  match t.kind with
  | .call | .parenOpen | .bracketOpen | .curlyOpen =>
    .ok (.opened { p.keep t with depth := p.depth + 1 })
  | .path =>
    if p.depth = 0 ∧ p.pending.isNone then
      if t.isPlain then .ok (.opened { p with pieces := p.pieces ++ [.param t none] })
      else .error (.atToken t (.dottedParameter t.text))
    else .ok (.opened (p.keep t))
  | .assignment =>
    if p.depth = 0 then
      match p.assignable? with
      | some q => .ok (.opened { p with pieces := p.pieces.dropLast, pending := some (q, []) })
      | none => .error (.atToken t .strayAssignment)
    else .ok (.opened (p.keep t))
  | .comma =>
    if p.depth = 0 then do
      let pieces ← p.settle t
      return .opened { p with pieces := pieces ++ [.comma t], pending := none }
    else .ok (.opened (p.keep t))
  | .parenClose =>
    if p.depth = 0 then do
      let pieces ← p.settle t
      return .closed p.name pieces
    else .ok (.opened { p.keep t with depth := p.depth - 1 })
  | .bracketClose | .curlyClose =>
    if p.depth = 0 then .error (.atToken t (.unbalanced t.text))
    else .ok (.opened { p.keep t with depth := p.depth - 1 })
  | _ => .ok (.opened (p.keep t))

end Partial

/-- Takes the token that opens a signature. -/
def begin (t : Token) : Except SyntaxError State :=
  if t.kind = .call ∧ t.isPlain then .ok (.opened ⟨t.text, 0, [], none⟩)
  else if t.kind = .emptyCall ∧ t.isPlain then .ok (.closed t.text [])
  else .error (.atToken t (.missingCallOpener t.source))

/-- Takes a token. -/
def State.feed (s : State) (t : Token) : Except SyntaxError State :=
  match s with
  | .start => begin t
  | .opened p => p.feed t
  | .closed _ _ => .error (.atToken t (.afterSignature t.source))

/-- Turns pieces into parameters. `expecting` says whether a parameter may come next, and `done`
holds those that have come. -/
def collect (name : String) (expecting : Bool) (done : List Parameter) :
    List Piece → Except SyntaxError (List Parameter)
  | [] => .ok done
  | .param t d :: rest =>
    if expecting then
      if done.any (·.name == t.text) then .error (.atToken t (.duplicateParameter t.text name))
      else collect name false (done ++ [⟨t.text, d⟩]) rest
    else .error (.atToken t (.unexpectedInSignature t.source name))
  | .comma t :: rest =>
    if expecting then .error (.atToken t (.unexpectedInSignature t.source name))
    else collect name true done rest
  | .other t :: _ => .error (.atToken t (.unexpectedInSignature t.source name))

/-- The signature, if reading has come to its end. -/
def State.finish (place : Place) : State → Except SyntaxError Signature
  | .start => .error (.atPlace place .missingMacroName)
  | .opened p => .error (.atPlace place (.unclosedSignature p.name))
  | .closed name pieces => do
    let params ← collect name true [] pieces
    return ⟨name, params⟩

/-- The signature that the tokens of a macro tag make up, white space aside. -/
def ofTokens (place : Place) (ts : List Token) : Except SyntaxError Signature := do
  let s ← (Token.significant ts).foldlM State.feed .start
  s.finish place

end Signature

end Stencil
