/-!
A YAML text laid out in **cells**: characters together with the place where they stand, since
indentation has a meaning. `cells?` lays a text out, `atMarker` finds the lines that bound a
document, and `Rest.skip` passes what stands between two parts of a document.
-/

namespace Stencil.Yaml

/-- A character, the number of its line, and how many characters of the line stand before it. -/
structure Cell where
  char : Char
  line : Nat
  column : Nat

/-- Spaces and tabs. -/
def isBlank (c : Char) : Bool :=
  c == ' ' || c == '\t'

/-- What ends a line: the line feed and the two separators U+2028 and U+2029. -/
def isBreak (c : Char) : Bool :=
  c == '\n' || c == '\u2028' || c == '\u2029'

/-- Blanks and line breaks. -/
def isGap (c : Char) : Bool :=
  isBlank c || isBreak c

/-- Characters that a text may hold: no control characters besides tabs and ends of lines, and no
noncharacters of the first plane. -/
def isAllowed (c : Char) : Bool :=
  if c.toNat < 160 then
    isBlank c || (32 ≤ c.toNat && c.toNat ≤ 126) || [10, 13, 133].contains c.toNat
  else c.toNat != 65534 && c.toNat != 65535

/-- The cells of characters that start at the given place. A carriage return, with or without a
line feed behind it, and U+0085 count as a line feed. -/
def layout (line column : Nat) : List Char → List Cell
  | [] => []
  | '\r' :: '\n' :: rest => ⟨'\n', line, column⟩ :: layout (line + 1) 0 rest
  | c :: rest =>
    if c == '\r' || c == '\x85' then ⟨'\n', line, column⟩ :: layout (line + 1) 0 rest
    else if isBreak c then ⟨c, line, column⟩ :: layout (line + 1) 0 rest
    else ⟨c, line, column⟩ :: layout line (column + 1) rest

/-- The cells of a text in which all characters are allowed. -/
def cells? (text : String) : Option (List Cell) :=
  if text.toList.all isAllowed then some (layout 0 0 text.toList) else none

/-- Whether a blank, a line break or the end of the text comes next. -/
def endsWord (cells : List Cell) : Bool :=
  cells.head?.all (isGap ·.char)

/-- Whether three hyphens or three dots come next that start a line and stand alone. -/
def atMarker : List Cell → Bool
  | a :: b :: c :: rest =>
    a.column == 0 && (a.char == '-' || a.char == '.') && b.char == a.char && c.char == a.char
      && endsWord rest
  | _ => false

/-- What is left of a text. It is `fresh` if only indentation and the dashes of items stand before
it on its line; tabs are refused there. -/
structure Rest where
  fresh : Bool
  cells : List Cell

namespace Rest

/-- The column of what comes next. -/
def column? (r : Rest) : Option Nat :=
  r.cells.head?.map (·.column)

/-- What follows the given character, if it comes next. -/
def after? (r : Rest) (char : Char) : Option Rest :=
  match r.cells with
  | [] => none
  | c :: rest => if c.char = char then some ⟨false, rest⟩ else none

/-- What follows the dash of an item, if one comes next. -/
def afterDash? (r : Rest) : Option Rest :=
  match r.cells with
  | [] => none
  | c :: rest => if c.char = '-' ∧ endsWord rest then some ⟨true, rest⟩ else none

/-- What follows the given marker, if it comes next. -/
def afterMarker? (r : Rest) (char : Char) : Option Rest :=
  if atMarker r.cells ∧ (r.after? char).isSome then some ⟨false, r.cells.drop 3⟩ else none

/-- Passes blanks, line breaks and comments; `flow` says whether this happens inside brackets,
where tabs are never refused, and `comment` whether it starts within a comment. A byte order mark
may start a line. -/
def skipFrom (flow : Bool) : (fresh comment : Bool) → List Cell → Rest
  | fresh, _, [] => ⟨fresh, []⟩
  | fresh, comment, c :: rest =>
    if isBreak c.char then skipFrom flow true false rest
    else if comment || c.char == ' ' || (c.char == '\t' && (flow || !fresh))
        || (c.char == '\ufeff' && c.column == 0) then skipFrom flow fresh comment rest
    else if c.char == '#' then skipFrom flow fresh true rest
    else ⟨fresh, c :: rest⟩

/-- What comes next besides blanks, line breaks and comments. -/
def skip (r : Rest) (flow : Bool) : Rest :=
  skipFrom flow r.fresh false r.cells

/-- Whether the next character stands on the line where an earlier one comes next, and not more
than 1024 characters behind it. -/
def isNear (r earlier : Rest) : Bool :=
  match earlier.cells, r.cells with
  | a :: _, b :: _ => a.line == b.line && b.column ≤ a.column + 1024
  | _, _ => false

end Rest

end Stencil.Yaml
