import Stencil.Settings.Yaml.Cell
import Stencil.Text.Quoted

/-!
YAML **scalars**: texts that are plain or stand in single or double quotes. `scalar?` reads one. A
scalar may go on over several lines; `foldGap` says what the gap between two of them stands for.
-/

namespace Stencil.Yaml

/-- A text, and whether it is written without quotes. -/
structure Scalar where
  plain : Bool
  text : String

/-- What the blanks and line breaks inside a scalar stand for. Blanks within a line stand for
themselves. Between lines blanks count for nothing, a single line feed stands for a space, and
more breaks for themselves without a line feed at the front. -/
def foldGap (gap : List Char) : List Char :=
  match gap.filter isBreak with
  | [] => gap
  | ['\n'] => [' ']
  | '\n' :: more => more
  | breaks => breaks

/-! ### Plain scalars -/

/-- What ends a plain scalar inside brackets. -/
def flowIndicators : List Char :=
  [',', '[', ']', '\x7b', '\x7d']

/-- What no plain scalar starts with, besides blanks. -/
def startIndicators : List Char :=
  flowIndicators ++ ['#', '&', '*', '!', '|', '>', '\'', '"', '%', '@', '\x60']

/-- Whether a plain scalar comes next; `flow` says whether inside brackets. -/
def startsPlain (flow : Bool) : List Cell → Bool
  | [] => false
  | c :: rest =>
    if c.char == '-' then !endsWord rest
    else if c.char == '?' || c.char == ':' then !flow && !endsWord rest
    else !isGap c.char && !startIndicators.contains c.char

/-- Whether a plain scalar ends before a character, by what follows it: at the colon of a key and,
inside brackets, at their indicators. -/
def endsPlain (flow : Bool) (char : Char) (rest : List Cell) : Bool :=
  (char == ':' && endsWord rest) || (flow && flowIndicators.contains char)

/-- Whether a colon inside brackets is followed by an indicator it cannot stand before. -/
def isStrayColon (flow : Bool) (char : Char) (rest : List Cell) : Bool :=
  flow && char == ':' && rest.head?.any (('?' :: flowIndicators).contains ·.char)

/-- The characters of a plain scalar, and what follows them. The blanks and line breaks just
passed, the last one first, are `gap`; they belong to the scalar only if it goes on behind them.
It goes on in another line from the column `indent` on, unless it stands in brackets. -/
def plainRun (flow : Bool) (indent : Nat) : (gap : List Char) → List Cell →
    Option (List Char × Rest)
  | gap, [] => some ([], ⟨gap.any isBreak, []⟩)
  | gap, c :: rest =>
    if isGap c.char then
      if c.char == '\t' && c.column < indent && gap.any isBreak then none
      else plainRun flow indent (c.char :: gap) rest
    else if !gap.isEmpty && (c.char == '#' || atMarker (c :: rest)
        || (!flow && c.column < indent && gap.any isBreak)) then
      some ([], ⟨gap.any isBreak, c :: rest⟩)
    else if isStrayColon flow c.char rest then none
    else if endsPlain flow c.char rest then some ([], ⟨gap.any isBreak, c :: rest⟩)
    else (plainRun flow indent [] rest).map fun p => (foldGap gap.reverse ++ c.char :: p.1, p.2)

/-! ### Quoted scalars -/

/-- What a scalar in quotes is in the middle of. -/
inductive Quoting where
  /-- A text, behind blanks and line breaks of which the last is the first of `gap`; `joined` says
  whether a line break without a meaning stands before them. -/
  | text (joined : Bool) (gap : List Char)
  /-- An escape, behind the character that starts it. -/
  | escape
  /-- The number of a character, of which `left` hexadecimal digits and then one more are still to
  come, behind digits of the value `n`. -/
  | digits (left n : Nat)

/-- The character an escape of one letter stands for. -/
def escape? (c : Char) : Option Char :=
  [('0', '\x00'), ('a', '\x07'), ('b', '\x08'), ('t', '\t'), ('\t', '\t'), ('n', '\n'),
    ('v', '\x0b'), ('f', '\x0c'), ('r', '\r'), ('e', '\x1b'), (' ', ' '), ('"', '"'), ('/', '/'),
    ('\\', '\\'), ('N', '\x85'), ('_', '\xa0'), ('L', '\u2028'), ('P', '\u2029')].lookup c

/-- How many hexadecimal digits follow the letter of an escape, besides one. -/
def escapeDigits? (c : Char) : Option Nat :=
  [('x', 1), ('u', 3), ('U', 7)].lookup c

/-- The characters of a scalar in quotes up to the closing one, which is `mark`, and what follows
it. Between double quotes a backslash starts an escape; between single quotes a quote that is
written twice stands for itself. -/
def quotedRun (mark : Char) : Quoting → List Cell → Option (List Char × List Cell)
  | _, [] => none
  | .text joined gap, c :: rest =>
    if atMarker (c :: rest) then none
    else if isGap c.char then quotedRun mark (.text joined (c.char :: gap)) rest
    else
      let front := if joined then gap.reverse.filter isBreak else foldGap gap.reverse
      if c.char == mark && !(mark == '\'' && rest.head?.any (·.char == mark)) then
        some (front, rest)
      else if c.char == mark || (c.char == '\\' && mark == '"') then
        (quotedRun mark .escape rest).map fun p => (front ++ p.1, p.2)
      else (quotedRun mark (.text false []) rest).map fun p => (front ++ c.char :: p.1, p.2)
  | .escape, c :: rest =>
    if isBreak c.char then quotedRun mark (.text true []) rest
    else if c.char == mark then
      (quotedRun mark (.text false []) rest).map fun p => (mark :: p.1, p.2)
    else match escapeDigits? c.char with
      | some left => quotedRun mark (.digits left 0) rest
      | none => do
        let d ← escape? c.char
        let p ← quotedRun mark (.text false []) rest
        return (d :: p.1, p.2)
  | .digits left n, c :: rest => do
    let d ← Text.hexDigit? c.char
    let n := 16 * n + d
    match left with
    | 0 =>
      let p ← if n.isValidChar then quotedRun mark (.text false []) rest else none
      return (Char.ofNat n :: p.1, p.2)
    | left + 1 => quotedRun mark (.digits left n) rest

/-- A scalar and what follows it; `flow` says whether it stands in brackets, and outside of them
its lines start from the column `indent` on. -/
def scalar? (flow : Bool) (indent : Nat) (r : Rest) : Option (Scalar × Rest) :=
  match r.cells with
  | [] => none
  | c :: rest =>
    if atMarker r.cells then none
    else if c.char == '"' || c.char == '\'' then
      (quotedRun c.char (.text false []) rest).map fun p =>
        (⟨false, String.ofList p.1⟩, ⟨false, p.2⟩)
    else if startsPlain flow r.cells then
      (plainRun flow indent [] r.cells).map fun p => (⟨true, String.ofList p.1⟩, p.2)
    else none

end Stencil.Yaml
