import Stencil.Number.Shortest

/-!
How numbers are written. A `Layout` holds the decisions of one format; `Layout.write` puts the
digits of the shortest decimal in place. There are three formats:

* `Layout.display`, for rendered output, is always positional;
* `Layout.json`, for the floating-point numbers of JSON;
* `Layout.debug`, for outlines of trees.

`Number.text` writes a whole number of at most fifteen digits as an integer and any other number
in the first format.
-/

namespace Stencil

/-- The decisions of a number format. -/
structure Layout where
  /-- Whether a number whose first digit stands for `10 ^ e` is written without an exponent. -/
  positional : (e : Int) → Bool
  /-- Whether a whole number in positional form ends in a point and a zero. -/
  keepPoint : Bool
  /-- What stands before a nonnegative exponent. -/
  plus : String
  /-- Which of two equally near decimals is written. -/
  tie : Tie
  /-- The texts of the two infinities. -/
  infinity : (negative : Bool) → String
  /-- The text of a NaN. -/
  notANumber : String

namespace Layout

/-- Rendered output: all digits in their places. -/
def display : Layout where
  positional _ := true
  keepPoint := false
  plus := ""
  tie := .up
  infinity s := if s then "-inf" else "inf"
  notANumber := "NaN"

/-- JSON: positional between `10 ^ -5` and `10 ^ 16`. -/
def json : Layout where
  positional e := -5 ≤ e && e < 16
  keepPoint := true
  plus := "+"
  tie := .even
  infinity _ := "null"
  notANumber := "null"

/-- Outlines of trees: positional between `10 ^ -4` and `10 ^ 16`. -/
def debug : Layout where
  positional e := -4 ≤ e && e < 16
  keepPoint := true
  plus := ""
  tie := .up
  infinity s := if s then "-inf" else "inf"
  notANumber := "NaN"

/-- The digits `ds`, of which the last stands for `10 ^ exponent`, written in their places. -/
def place (keepPoint : Bool) (ds : List Char) (exponent : Int) : List Char :=
  if 0 ≤ exponent then
    ds ++ List.replicate exponent.toNat '0' ++ (if keepPoint then ['.', '0'] else [])
  else
    let after := (-exponent).toNat
    let padded := List.replicate (after + 1 - ds.length) '0' ++ ds
    padded.take (padded.length - after) ++ '.' :: padded.drop (padded.length - after)

/-- The digits `ds` after a single leading one and a power of ten. -/
def scientific (plus : String) (ds : List Char) (e : Int) : List Char :=
  ds.take 1 ++ (if 1 < ds.length then '.' :: ds.drop 1 else []) ++ 'e' ::
    (if 0 ≤ e then plus.toList ++ Nat.toDigits 10 e.toNat else '-' :: Nat.toDigits 10 e.natAbs)

/-- The text of a number in the format. -/
def write (l : Layout) : Number → String
  | .nan => l.notANumber
  | .infinite s => l.infinity s
  | .finite s m e =>
    let d := Number.shortest l.tie m e
    let ds := Nat.toDigits 10 d.digits
    let leading := d.exponent + ds.length - 1
    let body :=
      if m = 0 || l.positional leading then place l.keepPoint ds d.exponent
      else scientific l.plus ds leading
    String.ofList (if s then '-' :: body else body)

end Layout

namespace Number

/-- The text of a number in rendered output. -/
def text (n : Number) : String :=
  match n.short? with
  | some i => toString i
  | none => Layout.display.write n

end Number

end Stencil
