import Stencil.Json

/-!
Reading JSON texts. `Json.read?` gives the value of a text, or nothing where the text breaks the
grammar, nests deeper than `maxDepth`, or has a number beyond the range of the numbers. Of two
members with one name the later counts. Numbers with very many digits are not read to the last
bit: `numberOf?` says how.
-/

namespace Stencil.Json

/-- How deep arrays and objects may nest. -/
def maxDepth : Nat := 127

/-- White space between the parts of a JSON text. -/
def isSpace (c : Char) : Bool :=
  c == ' ' || c == '\n' || c == '\t' || c == '\r'

/-- The rest of the text after white space. -/
def skip (cs : List Char) : List Char :=
  cs.dropWhile isSpace

/-- The value of four hexadecimal digits, and the rest of the text. -/
def hexUnit? : List Char → Option (Nat × List Char)
  | a :: b :: c :: d :: rest => do
    let a ← Text.hexDigit? a
    let b ← Text.hexDigit? b
    let c ← Text.hexDigit? c
    let d ← Text.hexDigit? d
    return (((a * 16 + b) * 16 + c) * 16 + d, rest)
  | _ => none

/-- The character of an escape `\u`, which may need a second unit, and the rest of the text. -/
def codePoint? (cs : List Char) : Option (Char × List Char) := do
  let (high, rest) ← hexUnit? cs
  if 0xd800 ≤ high && high < 0xdc00 then
    match rest with
    | '\\' :: 'u' :: rest =>
      let (low, rest) ← hexUnit? rest
      if 0xdc00 ≤ low && low < 0xe000 then
        some (Char.ofNat (0x10000 + (high - 0xd800) * 0x400 + (low - 0xdc00)), rest)
      else none
    | _ => none
  else if 0xdc00 ≤ high && high < 0xe000 then none
  else some (Char.ofNat high, rest)

/-- The characters of a string literal after its opening quote, and the rest of the text. -/
def chars : (fuel : Nat) → List Char → Option (List Char × List Char)
  | 0, _ => none
  | _ + 1, [] => none
  | fuel + 1, c :: rest =>
    if c = '"' then some ([], rest)
    else if c.toNat < 32 then none
    else if c = '\\' then do
      let (c, rest) ← match rest with
        | '"' :: rest => some ('"', rest)
        | '\\' :: rest => some ('\\', rest)
        | '/' :: rest => some ('/', rest)
        | 'b' :: rest => some ('\x08', rest)
        | 'f' :: rest => some ('\x0c', rest)
        | 'n' :: rest => some ('\n', rest)
        | 'r' :: rest => some ('\r', rest)
        | 't' :: rest => some ('\t', rest)
        | 'u' :: rest => codePoint? rest
        | _ => none
      let (cs, rest) ← chars fuel rest
      return (c :: cs, rest)
    else do
      let (cs, rest) ← chars fuel rest
      return (c :: cs, rest)

/-- A decimal significand and the digits behind it that no longer fit into 64 bits. -/
def gather (n : Nat) : List Char → Nat × List Char
  | [] => (n, [])
  | c :: cs =>
    let n' := 10 * n + (c.toNat - 48)
    if n' < UInt64.size then gather n' cs else (n, c :: cs)

/-- A number times a power of ten, if it is in range. Powers of ten beyond the range of the
numbers are divided by in several steps. -/
def scale? (x : Number) (exponent : Int) : Option Number :=
  if exponent.natAbs ≤ 308 then
    let power := Number.ofNat (Number.tenTo exponent.natAbs)
    if 0 ≤ exponent then (some (x.mul power)).filter Number.isFinite else some (x.div power)
  else if x.isZero then some x
  else if 0 ≤ exponent then none
  else scale? (x.div (Number.ofNat (Number.tenTo 308))) (exponent + 308)
termination_by exponent.natAbs
decreasing_by omega

/-- The value of a number with the given digits. Digits behind the first 64 bits only count for
the place of the point, and the significand is rounded before it is scaled. -/
def numberOf? (negative : Bool) (whole : List Char) (fraction : Option (List Char))
    (exponent : Option Int) : Option Json :=
  let (n, dropped) := gather 0 whole
  let signed (x : Number) : Json := .float (if negative then x.neg else x)
  if fraction.isNone && exponent.isNone && dropped.isEmpty then
    if negative then
      if 0 < n ∧ n ≤ Number.twoTo 63 then some (.integer (-(n : Int)))
      else some (signed (.ofNat n))
    else some (.integer n)
  else
    let after := fraction.getD []
    let (n, unused) := gather n after
    let taken := after.length - unused.length
    (scale? (.ofNat n) (exponent.getD 0 + dropped.length - taken)).map signed

/-- A number, with the rest of the text: an integer without superfluous zeros, then optionally a
fraction and an exponent. -/
def number? (cs : List Char) : Option (Json × List Char) := do
  let negative := cs.head? == some '-'
  let cs := if negative then cs.tail else cs
  let whole := cs.takeWhile Char.isDigit
  let rest := cs.dropWhile Char.isDigit
  if whole.isEmpty || (whole.head? == some '0' && 1 < whole.length) then none
  let (fraction, rest) ← match rest with
    | '.' :: rest =>
      if (rest.takeWhile Char.isDigit).isEmpty then none
      else some (some (rest.takeWhile Char.isDigit), rest.dropWhile Char.isDigit)
    | rest => some (none, rest)
  let (exponent, rest) ← match rest with
    | c :: rest =>
      if c = 'e' || c = 'E' then
        let minus := rest.head? == some '-'
        let rest := if minus || rest.head? == some '+' then rest.tail else rest
        (Number.digitsValue? (rest.takeWhile Char.isDigit)).map fun e =>
          (some (if minus then -(e : Int) else (e : Int)), rest.dropWhile Char.isDigit)
      else some (none, c :: rest)
    | [] => some (none, [])
  let v ← numberOf? negative whole fraction exponent
  return (v, rest)

mutual

/-- A value, with the rest of the text. Every step takes a character, so the length of the text
is enough `fuel`. -/
def value (fuel depth : Nat) (cs : List Char) : Option (Json × List Char) :=
  match fuel with
  | 0 => none
  | fuel + 1 =>
    match skip cs with
    | 'n' :: 'u' :: 'l' :: 'l' :: rest => some (.null, rest)
    | 't' :: 'r' :: 'u' :: 'e' :: rest => some (.bool true, rest)
    | 'f' :: 'a' :: 'l' :: 's' :: 'e' :: rest => some (.bool false, rest)
    | '"' :: rest => (chars (rest.length + 1) rest).map fun r => (.string (String.ofList r.1), r.2)
    | '[' :: rest =>
      match depth with
      | 0 => none
      | depth + 1 =>
        match skip rest with
        | ']' :: rest => some (.array [], rest)
        | rest => (items fuel depth rest).map fun r => (.array r.1, r.2)
    | '\x7b' :: rest =>
      match depth with
      | 0 => none
      | depth + 1 =>
        match skip rest with
        | '\x7d' :: rest => some (.object .empty, rest)
        | rest => (members fuel depth rest).map fun r => (.object (Dict.ofList r.1), r.2)
    | rest => number? rest

/-- The items of an array up to its closing bracket. -/
def items (fuel depth : Nat) (cs : List Char) : Option (List Json × List Char) :=
  match fuel with
  | 0 => none
  | fuel + 1 => do
    let (v, rest) ← value fuel depth cs
    match skip rest with
    | ']' :: rest => return ([v], rest)
    | ',' :: rest =>
      let (vs, rest) ← items fuel depth rest
      return (v :: vs, rest)
    | _ => none

/-- The members of an object up to its closing brace. -/
def members (fuel depth : Nat) (cs : List Char) : Option (List (String × Json) × List Char) :=
  match fuel with
  | 0 => none
  | fuel + 1 =>
    match skip cs with
    | '"' :: rest => do
      let (name, rest) ← chars (rest.length + 1) rest
      match skip rest with
      | ':' :: rest =>
        let (v, rest) ← value fuel depth rest
        match skip rest with
        | '\x7d' :: rest => return ([(String.ofList name, v)], rest)
        | ',' :: rest =>
          let (more, rest) ← members fuel depth rest
          return ((String.ofList name, v) :: more, rest)
        | _ => none
      | _ => none
    | _ => none

end

/-- The value of a JSON text. -/
def read? (text : String) : Option Json :=
  match value (2 * text.length + 2) maxDepth text.toList with
  | some (v, rest) => if (skip rest).isEmpty then some v else none
  | none => none

end Stencil.Json
