import Stencil.Text.Property

/-!
Texts in quotes. There are two written forms and one reading:

* `debugQuote`, the form used inside messages, in which everything that cannot be seen is written
  as a code point in braces;
* `jsonQuote`, the string literal of JSON, which is also one of the generated script;
* `unescape`, which gives the text a literal of the template language stands for.
-/

namespace Stencil.Text

/-- The digits of `n` in base sixteen, in lower case. -/
def hex (n : Nat) : List Char :=
  Nat.toDigits 16 n

/-- The value of a hexadecimal digit. -/
def hexDigit? (c : Char) : Option Nat :=
  if c.isDigit then some (c.toNat - 48)
  else if 'a' ≤ c && c ≤ 'f' then some (c.toNat - 87)
  else if 'A' ≤ c && c ≤ 'F' then some (c.toNat - 55)
  else none

/-- A character as it stands in a message between two marks `quote`. -/
def debugChar (quote c : Char) : List Char :=
  if c = '\t' then ['\\', 't']
  else if c = '\r' then ['\\', 'r']
  else if c = '\n' then ['\\', 'n']
  else if c = '\x00' then ['\\', '0']
  else if c = '\\' || c = quote then ['\\', c]
  else if isVisible c then [c]
  else ['\\', 'u', '\x7b'] ++ hex c.toNat ++ ['\x7d']

/-- A text in double quotes, as messages show it. -/
def debugQuote (s : String) : String :=
  String.ofList ('"' :: s.toList.flatMap (debugChar '"') ++ ['"'])

/-- A single character in quotes, as messages show it. -/
def debugQuoteChar (c : Char) : String :=
  String.ofList ('\'' :: debugChar '\'' c ++ ['\''])

/-- The hexadecimal digits of `n` after as many zeros as four digits need. -/
def hex4 (n : Nat) : List Char :=
  List.replicate (4 - (hex n).length) '0' ++ hex n

/-- A character inside a string literal of JSON. -/
def jsonChar (c : Char) : List Char :=
  if c = '"' then ['\\', '"']
  else if c = '\\' then ['\\', '\\']
  else if c = '\x08' then ['\\', 'b']
  else if c = '\x0c' then ['\\', 'f']
  else if c = '\n' then ['\\', 'n']
  else if c = '\r' then ['\\', 'r']
  else if c = '\t' then ['\\', 't']
  else if c.toNat < 32 then ['\\', 'u'] ++ hex4 c.toNat
  else [c]

/-- The string literal of JSON for a text. -/
def jsonQuote (s : String) : String :=
  String.ofList ('"' :: s.toList.flatMap jsonChar ++ ['"'])

/-- The text with its backslash escapes resolved. A backslash before any character but `n`, `t`
and `r` stands for that character, and a backslash at the end for itself. -/
def resolveEscapes : List Char → List Char
  | [] => []
  | ['\\'] => ['\\']
  | '\\' :: c :: rest =>
    (if c = 'n' then '\n' else if c = 't' then '\t' else if c = 'r' then '\r' else c)
      :: resolveEscapes rest
  | c :: rest => c :: resolveEscapes rest

/-- The characters between the first and the last byte, or nothing where one of the two cuts
would fall inside a character. -/
def inner : List Char → List Char
  | [] => []
  | c :: rest =>
    if c.utf8Size = 1 then
      match rest.getLast? with
      | some last => if last.utf8Size = 1 then rest.dropLast else []
      | none => []
    else []

/-- What a string literal stands for: its quotes are removed and its escapes resolved. -/
def unescape (quoted : List Char) : List Char :=
  resolveEscapes (inner quoted)

end Stencil.Text
