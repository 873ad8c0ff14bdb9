import Stencil.Expr
import Stencil.SyntaxError

/-!
Reading expressions from tokens. The grammar is

* expression: an operand and then any number of indexes in brackets;
* operand: a constant, names joined by dots, a call of such names, a list in brackets, a map in
  braces, or an expression in parentheses.

Lists and maps may end in a comma, arguments may not, and positional arguments come before keyword
arguments. Each reader takes tokens from the front and returns those behind, which are fewer; that
is why reading ends. `Expr.ofTokens` wants all tokens used up, white space aside.
-/

namespace Stencil.Expr

/-- The error of a token with which no expression can start or go on. -/
def unexpected (t : Token) : SyntaxError :=
  if t.kind = .operator then .atToken t (.unsupportedOperator t.text)
  else .atToken t (.unexpectedToken t.kind t.source)

/-- The error of tokens that break off: it points behind the last of them. -/
def endError (ts : List Token) : SyntaxError :=
  match ts.getLast? with
  | some t => ⟨.endOfExpression, max 1 t.line, ⟨t.span.stop, t.span.stop⟩, []⟩
  | none => ⟨.endOfExpression, 1, ⟨0, 0⟩, []⟩

/-- The tokens left when at least one of `ts` has been taken. -/
abbrev Rest (ts : List Token) := { rest : List Token // rest.length < ts.length }

/-- The tokens left when any number of `ts` has been taken. -/
abbrev Tail (ts : List Token) := { rest : List Token // rest.length ≤ ts.length }

/-- Takes a token of the given kind. -/
def expect (stop : SyntaxError) (kind : TokenKind) (ts : List Token) :
    Except SyntaxError (Rest ts) :=
  match ts with
  | [] => .error stop
  | t :: rest => if t.kind = kind then .ok ⟨rest, by simp⟩ else .error (unexpected t)

/-- Takes what follows an item: a comma, which is answered with `true`, or the closing bracket. -/
def separator (stop : SyntaxError) (close : TokenKind) (ts : List Token) :
    Except SyntaxError (Bool × Rest ts) :=
  match ts with
  | [] => .error stop
  | t :: rest =>
    if t.kind = .comma then .ok (true, ⟨rest, by simp⟩)
    else if t.kind = close then .ok (false, ⟨rest, by simp⟩)
    else .error (unexpected t)

/-- Takes the key of a map entry and the colon behind it. -/
def key (stop : SyntaxError) (ts : List Token) : Except SyntaxError (String × Rest ts) :=
  match ts with
  | [] => .error stop
  | t :: rest =>
    let name :=
      if t.kind = .string then some (String.ofList (Text.unescape t.text.toList))
      else if t.kind = .path ∧ t.isPlain then some t.text
      else none
    match name with
    | none => .error (unexpected t)
    | some name => do
      let ⟨rest', h⟩ ← expect stop .colon rest
      return (name, ⟨rest', Nat.lt_succ_of_lt h⟩)

/-- Takes the name of a keyword argument and the equals sign behind it, if they are next. -/
def keyword? (ts : List Token) : Option (Token × Rest ts) :=
  match ts with
  | t :: a :: rest =>
    if t.kind = .path ∧ a.kind = .assignment then
      some (t, ⟨rest, Nat.lt_succ_of_lt (Nat.lt_succ_self _)⟩)
    else none
  | _ => none

mutual

/-- Takes an expression. -/
def read (stop : SyntaxError) (ts : List Token) : Except SyntaxError (Expr × Rest ts) := do
  let (e, ⟨rest, h⟩) ← readOperand stop ts
  let (e, ⟨rest', h'⟩) ← readIndexes stop e rest
  return (e, ⟨rest', by omega⟩)
termination_by (ts.length, 2)

/-- Takes any number of indexes of what has been read. -/
def readIndexes (stop : SyntaxError) (target : Expr) (ts : List Token) :
    Except SyntaxError (Expr × Tail ts) :=
  match ts with
  | [] => .ok (target, ⟨[], by simp⟩)
  | t :: rest =>
    if t.kind = .bracketOpen then do
      let (place, ⟨rest₁, h₁⟩) ← read stop rest
      let ⟨rest₂, h₂⟩ ← expect stop .bracketClose rest₁
      let (e, ⟨rest₃, h₃⟩) ← readIndexes stop (.index target place) rest₂
      return (e, ⟨rest₃, by simp; omega⟩)
    else .ok (target, ⟨t :: rest, by simp⟩)
termination_by (ts.length, 0)

/-- Takes an operand. -/
def readOperand (stop : SyntaxError) (ts : List Token) : Except SyntaxError (Expr × Rest ts) :=
  match ts with
  | [] => .error stop
  | t :: rest =>
    match t.kind with
    | .string =>
      .ok (.literal (.string (String.ofList (Text.unescape t.text.toList))), ⟨rest, by simp⟩)
    | .number =>
      match Number.ofNumeral? t.text.toList with
      | some n => .ok (.literal (.number n), ⟨rest, by simp⟩)
      | none => .error (unexpected t)
    | .bool => .ok (.literal (.bool (t.text == "true")), ⟨rest, by simp⟩)
    | .nothing => .ok (.literal .nothing, ⟨rest, by simp⟩)
    | .path => .ok (ofPath t.text, ⟨rest, by simp⟩)
    | .emptyCall => .ok (.call (ofPath t.text) [] [], ⟨rest, by simp⟩)
    | .call => do
      let (args, kwargs, ⟨rest', h⟩) ← readArguments stop rest
      return (.call (ofPath t.text) args kwargs, ⟨rest', by simp; omega⟩)
    | .bracketOpen => do
      let (items, ⟨rest', h⟩) ← readItems stop rest
      return (.list items, ⟨rest', by simp; omega⟩)
    | .curlyOpen => do
      let (entries, ⟨rest', h⟩) ← readEntries stop rest
      return (.map entries, ⟨rest', by simp; omega⟩)
    | .parenOpen => do
      let (e, ⟨rest₁, h₁⟩) ← read stop rest
      let ⟨rest₂, h₂⟩ ← expect stop .parenClose rest₁
      return (e, ⟨rest₂, by simp; omega⟩)
    | _ => .error (unexpected t)
termination_by (ts.length, 1)

/-- Takes the arguments of a call and its closing parenthesis. -/
def readArguments (stop : SyntaxError) (ts : List Token) :
    Except SyntaxError (List Expr × List (String × Expr) × Rest ts) :=
  match ts with
  | [] => .error stop
  | t :: rest =>
    if t.kind = .parenClose then .ok ([], [], ⟨rest, by simp⟩) else readPositional stop (t :: rest)
termination_by (ts.length, 4)

/-- Takes arguments of which the first may still be positional. -/
def readPositional (stop : SyntaxError) (ts : List Token) :
    Except SyntaxError (List Expr × List (String × Expr) × Rest ts) :=
  match keyword? ts with
  | some (t, _) => do
    let (kwargs, ⟨rest, h⟩) ← readKeywords stop t.text ts
    return ([], kwargs, ⟨rest, h⟩)
  | none => do
    let (e, ⟨rest₁, h₁⟩) ← read stop ts
    match ← separator stop .parenClose rest₁ with
    | (false, ⟨rest₂, h₂⟩) => return ([e], [], ⟨rest₂, by omega⟩)
    | (true, ⟨rest₂, h₂⟩) =>
      let (args, kwargs, ⟨rest₃, h₃⟩) ← readPositional stop rest₂
      return (e :: args, kwargs, ⟨rest₃, by omega⟩)
termination_by (ts.length, 3)

/-- Takes keyword arguments, of which the first is called `first`. -/
def readKeywords (stop : SyntaxError) (first : String) (ts : List Token) :
    Except SyntaxError (List (String × Expr) × Rest ts) :=
  match keyword? ts with
  | none =>
    match ts with
    | [] => .error stop
    | t :: _ => .error (.atToken t (.positionalAfterKeyword first))
  | some (t, ⟨rest₀, h₀⟩) =>
    if t.isPlain then do
      let (e, ⟨rest₁, h₁⟩) ← read stop rest₀
      match ← separator stop .parenClose rest₁ with
      | (false, ⟨rest₂, h₂⟩) => return ([(t.text, e)], ⟨rest₂, by omega⟩)
      | (true, ⟨rest₂, h₂⟩) =>
        let (more, ⟨rest₃, h₃⟩) ← readKeywords stop first rest₂
        return ((t.text, e) :: more, ⟨rest₃, by omega⟩)
    else .error (unexpected t)
termination_by (ts.length, 2)

/-- Takes the items of a list and its closing bracket. -/
def readItems (stop : SyntaxError) (ts : List Token) : Except SyntaxError (List Expr × Rest ts) :=
  match ts with
  | [] => .error stop
  | t :: rest =>
    if t.kind = .bracketClose then .ok ([], ⟨rest, by simp⟩)
    else do
      let (e, ⟨rest₁, h₁⟩) ← read stop (t :: rest)
      match ← separator stop .bracketClose rest₁ with
      | (false, ⟨rest₂, h₂⟩) => return ([e], ⟨rest₂, by omega⟩)
      | (true, ⟨rest₂, h₂⟩) =>
        let (more, ⟨rest₃, h₃⟩) ← readItems stop rest₂
        return (e :: more, ⟨rest₃, by omega⟩)
termination_by (ts.length, 3)
decreasing_by
  all_goals first
    | decreasing_tactic
    | (simp only [Prod.lex_def, List.length_cons] at *; omega)

/-- Takes the entries of a map and its closing brace. -/
def readEntries (stop : SyntaxError) (ts : List Token) :
    Except SyntaxError (List (String × Expr) × Rest ts) :=
  match ts with
  | [] => .error stop
  | t :: rest =>
    if t.kind = .curlyClose then .ok ([], ⟨rest, by simp⟩)
    else do
      let (k, ⟨rest₀, h₀⟩) ← key stop (t :: rest)
      let (e, ⟨rest₁, h₁⟩) ← read stop rest₀
      match ← separator stop .curlyClose rest₁ with
      | (false, ⟨rest₂, h₂⟩) => return ([(k, e)], ⟨rest₂, by omega⟩)
      | (true, ⟨rest₂, h₂⟩) =>
        let (more, ⟨rest₃, h₃⟩) ← readEntries stop rest₂
        return ((k, e) :: more, ⟨rest₃, by omega⟩)
termination_by (ts.length, 3)
decreasing_by
  all_goals first
    | decreasing_tactic
    | (simp only [Prod.lex_def, List.length_cons] at *; omega)

end

/-- The expression that all the tokens make up, white space aside. -/
def ofTokens (ts : List Token) : Except SyntaxError Expr := do
  let ts := Token.significant ts
  let (e, ⟨rest, _⟩) ← read (endError ts) ts
  match rest with
  | [] => return e
  | t :: _ => .error (unexpected t)

end Stencil.Expr
