import Stencil.Text.Alphanumeric
import Stencil.Text.Combining
import Stencil.Text.Invisible
import Stencil.Text.Word

/-!
Character classes. A class is a table of **bounds**: ascending code points at which membership
alternately begins and ends (`inBounds`). The classes the language is made of are

* `isBlank`, white space, which separates tokens and is trimmed off source texts;
* `isWord`, what an identifier consists of besides the dollar sign;
* `isDigit`, what a number consists of;
* `isAlphanumeric`, what the name of a tag consists of besides the underscore;
* `isVisible`, what a quoted text shows as it is.

Characters below 128 are decided without a table.
-/

namespace Stencil.Text

/-- Membership in the set whose ascending bounds are `bounds`: past an odd number of bounds. -/
def inBounds : List Nat → Nat → Bool
  | [], _ => false
  | b :: rest, n => if n < b then false else !inBounds rest n

/-- White space, in the sense of the Unicode property White_Space. -/
def isBlank (c : Char) : Bool :=
  if c.toNat < 128 then c == ' ' || (9 ≤ c.toNat && c.toNat ≤ 13)
  else inBounds [133, 134, 160, 161, 5760, 5761, 8192, 8203, 8232, 8234, 8239, 8240, 8287, 8288,
    12288, 12289] c.toNat

/-- Word characters: letters, marks, decimal digits, connectors and the two joiners. -/
def isWord (c : Char) : Bool :=
  if c.toNat < 128 then c.isAlphanum || c == '_' else inBounds wordBounds c.toNat

/-- Decimal digits of any script. -/
def isDigit (c : Char) : Bool :=
  if c.toNat < 128 then c.isDigit else inBounds decimalBounds c.toNat

/-- Letters and numerals of any script. -/
def isAlphanumeric (c : Char) : Bool :=
  if c.toNat < 128 then c.isAlphanum else inBounds alphanumericBounds c.toNat

/-- Characters that are readable on their own, the space among them. -/
def isVisible (c : Char) : Bool :=
  if c.toNat < 128 then 32 ≤ c.toNat && c.toNat < 127
  else !inBounds invisibleBounds c.toNat && !inBounds combiningBounds c.toNat

/-- The list without the blanks in front. -/
def trimStart (cs : List Char) : List Char :=
  cs.dropWhile isBlank

/-- The list without the blanks at either end. -/
def trim (cs : List Char) : List Char :=
  (trimStart (trimStart cs).reverse).reverse

end Stencil.Text
