import Stencil.Number

/-!
The shortest decimal of a number. A decimal **reads back** as a finite nonzero number if it lies
between the midpoints to the two neighbours, the midpoints included iff the mantissa is even.
`Number.shortest` takes the least count of digits for which a multiple of the last digit's unit
reads back; of two such multiples the nearer one is taken, and `Tie` says which at equal distance.
-/

namespace Stencil

/-- A decimal: `digits * 10 ^ exponent`. -/
structure Decimal where
  digits : Nat
  exponent : Int
  deriving DecidableEq, Repr

/-- Which of two decimals at the same distance is taken. -/
inductive Tie where
  | up
  | even
  deriving DecidableEq

namespace Number

/-- Lengths of the interval around a number are counted in quarters of the unit `2 ^ -1074`: the
lower end, the number itself and the upper end. Below a power of two the neighbour is nearer. -/
def interval (mantissa shift : Nat) : Nat × Nat × Nat :=
  let low := if mantissa = twoTo 52 ∧ 0 < shift then 4 * mantissa - 1 else 4 * mantissa - 2
  (low * twoTo shift, 4 * mantissa * twoTo shift, (4 * mantissa + 2) * twoTo shift)

/-- Four units of one, the denominator of the quantities in `interval`. -/
def quartersPerOne : Nat := 4 * unitsPerOne

/-- The greatest `e` with `10 ^ e ≤ num / den`, for a positive quotient. -/
def leadingExponent (num den : Nat) : Int :=
  if den ≤ num then decimalWidth (num / den) - 1
  else -(decimalWidth ((den - 1) / num) : Int)

/-- The decimal without zeros at the end of its digits; `fuel` bounds their number. -/
def stripZeros : (fuel : Nat) → Decimal → Decimal
  | 0, d => d
  | fuel + 1, d =>
    if d.digits % 10 = 0 ∧ d.digits ≠ 0 then stripZeros fuel ⟨d.digits / 10, d.exponent + 1⟩ else d

/-- The multiple of `10 ^ exponent` nearest to the number, among those that read back. -/
def nearestMultiple? (tie : Tie) (mantissa shift : Nat) (exponent : Int) : Option Decimal :=
  let (low, mid, high) := interval mantissa shift
  let unit := if 0 ≤ exponent then tenTo exponent.toNat * quartersPerOne else quartersPerOne
  let scale := if 0 ≤ exponent then 1 else tenTo (-exponent).toNat
  let readsBack (n : Nat) : Bool :=
    let x := n * unit
    if mantissa % 2 = 0 then low * scale ≤ x && x ≤ high * scale
    else low * scale < x && x < high * scale
  let below := mid * scale / unit
  let rest := mid * scale % unit
  let upper : Bool :=
    if 2 * rest = unit then
      match tie with
      | .up => true
      | .even => below % 2 == 1
    else unit < 2 * rest
  match readsBack below, readsBack (below + 1) with
  | true, true => some ⟨if upper then below + 1 else below, exponent⟩
  | true, false => some ⟨below, exponent⟩
  | false, true => some ⟨below + 1, exponent⟩
  | false, false => none

/-- The first decimal that reads back, trying `count` more digits down from `10 ^ exponent`. -/
def firstDecimal (tie : Tie) (mantissa shift : Nat) : (count : Nat) → (exponent : Int) → Decimal
  | 0, exponent => ⟨mantissa, exponent⟩
  | count + 1, exponent =>
    match nearestMultiple? tie mantissa shift exponent with
    | some d => stripZeros 20 d
    | none => firstDecimal tie mantissa shift count (exponent - 1)

/-- The shortest decimal that reads back as the finite number, zero for zero. Seventeen digits
always suffice. -/
def shortest (tie : Tie) (mantissa shift : Nat) : Decimal :=
  if mantissa = 0 then ⟨0, 0⟩
  else
    firstDecimal tie mantissa shift 18
      (leadingExponent (4 * mantissa * twoTo shift) quartersPerOne)

end Number

end Stencil
