/-!
Numbers are the binary64 numbers of IEEE 754, kept exactly: a finite number is `mantissa` times
`2 ^ shift` units of `2 ^ -1074`, so that every question about one is a question about naturals.

* `Number.ofRatio` rounds a quotient to the nearest number, a tie to the even mantissa; it gives
  the canonical mantissa, below `2 ^ 53` and at least `2 ^ 52` unless the shift is zero.
* `Number.ofDecimal`, `Number.ofInt` and `Number.ofNumeral?` read decimals with it.
* `Number.toInt?` is the integer a number is equal to, and `Number.equals` is numeric equality.
-/

namespace Stencil

/-- A binary64 number. -/
inductive Number where
  /-- `mantissa * 2 ^ shift` units of `2 ^ -1074`, with a sign. -/
  | finite (negative : Bool) (mantissa shift : Nat)
  | infinite (negative : Bool)
  | nan
  deriving DecidableEq, Repr, Inhabited

namespace Number

/-- A power of two. -/
def twoTo (n : Nat) : Nat := Nat.pow 2 n

/-- A power of ten. -/
def tenTo (n : Nat) : Nat := Nat.pow 10 n

/-- The number of units of the least positive number in one. -/
def unitsPerOne : Nat := twoTo 1074

/-- The quotient rounded to the nearest natural, a tie to the even one. -/
def roundDiv (num den : Nat) : Nat :=
  if 2 * (num % den) < den ∨ (2 * (num % den) = den ∧ num / den % 2 = 0) then num / den
  else num / den + 1

/-- The number nearest to `num / den`, a tie going to the even mantissa. -/
def ofRatio (negative : Bool) (num den : Nat) : Number :=
  let units := num * unitsPerOne
  let shift := (units / den).log2 - 52
  let mantissa := roundDiv units (den * twoTo shift)
  if mantissa = twoTo 53 then
    if shift + 1 ≤ 2045 then .finite negative (twoTo 52) (shift + 1) else .infinite negative
  else if shift ≤ 2045 then .finite negative mantissa shift
  else .infinite negative

/-- The number nearest to a natural. -/
def ofNat (n : Nat) : Number :=
  ofRatio false n 1

/-- The number nearest to an integer. -/
def ofInt (n : Int) : Number :=
  ofRatio (n < 0) n.natAbs 1

/-- The nearest number to the product of two finite numbers. -/
def mul : Number → Number → Number
  | .finite s m e, .finite s' m' e' =>
    ofRatio (s != s') (m * twoTo e * (m' * twoTo e')) (unitsPerOne * unitsPerOne)
  | _, _ => .nan

/-- The nearest number to the quotient of two finite numbers, of which the second is not zero. -/
def div : Number → Number → Number
  | .finite s m e, .finite s' m' e' => ofRatio (s != s') (m * twoTo e) (m' * twoTo e')
  | _, _ => .nan

/-- Whether a number is one of the two zeros. -/
def isZero : Number → Bool
  | .finite _ m _ => m == 0
  | _ => false

/-- Whether a number is finite. -/
def isFinite : Number → Bool
  | .finite .. => true
  | _ => false

/-- The number with the other sign. -/
def neg : Number → Number
  | .finite s m e => .finite (!s) m e
  | .infinite s => .infinite (!s)
  | .nan => .nan

/-- How many decimal digits `n` is written with. -/
def decimalWidth (n : Nat) : Nat :=
  (Nat.toDigits 10 n).length

/-- The number nearest to `digits * 10 ^ exponent`. A decimal whose leading digit stands beyond
the range of the numbers is settled without its power of ten. -/
def ofDecimal (negative : Bool) (digits : Nat) (exponent : Int) : Number :=
  let leading := exponent + decimalWidth digits
  if digits = 0 ∨ leading < -330 then .finite negative 0 0
  else if leading > 310 then .infinite negative
  else if exponent < 0 then ofRatio negative digits (tenTo exponent.natAbs)
  else ofRatio negative (digits * tenTo exponent.natAbs) 1

/-- The value of a run of decimal digits, if it is one and not empty. -/
def digitsValue? (cs : List Char) : Option Nat :=
  if cs.isEmpty || !cs.all Char.isDigit then none
  else some (cs.foldl (fun n c => 10 * n + (c.toNat - 48)) 0)

/-- The value of digits before and after a point, times a power of ten; without a point `fraction`
is empty. -/
def ofParts? (negative : Bool) (whole fraction : List Char) (exponent : Int) : Option Number :=
  (digitsValue? (whole ++ fraction)).map fun n =>
    ofDecimal negative n (exponent - fraction.length)

/-- Whether a text starts with a minus sign, and the text without its sign. -/
def splitSign (cs : List Char) : Bool × List Char :=
  let negative := cs.head? == some '-'
  (negative, if negative || cs.head? == some '+' then cs.tail else cs)

/-- The exponent behind the digits of a number, zero if there is none. It starts with a letter and
may have a sign. -/
def exponent? : List Char → Option Int
  | [] => some 0
  | _ :: cs =>
    let (negative, digits) := splitSign cs
    (digitsValue? digits).map fun n => if negative then -(n : Int) else n

/-- Whether a character starts an exponent. -/
def isExponentMark (c : Char) : Bool :=
  c.toLower == 'e'

/-- The number a text stands for: an optional sign, and then either digits with an optional point
and an optional exponent, or one of the words `inf`, `infinity` and `nan` in any letter case. Only
the digits from zero to nine have a value. -/
def ofNumeral? (cs : List Char) : Option Number :=
  let (negative, unsigned) := splitSign cs
  let word := String.ofList (unsigned.map Char.toLower)
  if word = "inf" ∨ word = "infinity" then some (.infinite negative)
  else if word = "nan" then some .nan
  else
    let decimal := unsigned.takeWhile fun c => !isExponentMark c
    (exponent? (unsigned.dropWhile fun c => !isExponentMark c)).bind fun exponent =>
      ofParts? negative (decimal.takeWhile (· != '.')) (decimal.dropWhile (· != '.')).tail exponent

/-- Equality of numeric values: the two zeros are equal, and a NaN equals nothing. -/
def equals : Number → Number → Bool
  | .finite s m e, .finite s' m' e' => m == m' && (m == 0 || (s == s' && e == e'))
  | .infinite s, .infinite s' => s == s'
  | _, _ => false

/-- The natural a number is equal to, its sign left out. -/
def magnitude? : Number → Option Nat
  | .finite _ m e =>
    if m * twoTo e % unitsPerOne = 0 then some (m * twoTo e / unitsPerOne) else none
  | _ => none

/-- The integer a number is equal to. -/
def toInt? : Number → Option Int
  | .finite s m e =>
    (magnitude? (.finite s m e)).map fun n => if s then -(n : Int) else (n : Int)
  | _ => none

/-- The integer a number is equal to, if it has at most fifteen digits. Such numbers are written
as integers. -/
def short? (n : Number) : Option Int :=
  n.toInt?.filter fun i => i.natAbs < tenTo 15

/-- The natural a number is equal to, negative zero being zero. -/
def toNat? (n : Number) : Option Nat :=
  n.toInt?.bind fun i => if i < 0 then none else some i.toNat

end Number

end Stencil
