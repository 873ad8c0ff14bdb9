/-!
Places in a text. Offsets count the bytes of the UTF-8 form, lines count from one. A **span** is
a range of offsets; `Span.join` is the least span around two, and `Span.labelLength` is the width
a report underlines, which is never nothing.
-/

namespace Stencil.Text

/-- The number of bytes the characters take in UTF-8. -/
def bytes : List Char → Nat
  | [] => 0
  | c :: cs => c.utf8Size + bytes cs

/-- The number of line ends among the characters. -/
def newlines (cs : List Char) : Nat :=
  cs.count '\n'

/-- A range of byte offsets. -/
structure Span where
  /-- The offset of the first byte. -/
  start : Nat
  /-- The offset after the last byte. -/
  stop : Nat
  deriving DecidableEq, Repr, Inhabited

namespace Span

/-- The number of bytes covered, none if the range runs backwards. -/
def length (s : Span) : Nat :=
  s.stop - s.start

/-- Whether the span covers nothing. -/
def isEmpty (s : Span) : Bool :=
  s.length == 0

/-- The least span that covers both. -/
def join (s t : Span) : Span :=
  ⟨min s.start t.start, max s.stop t.stop⟩

/-- The width shown in a report: a place without extent is shown one byte wide. -/
def labelLength (s : Span) : Nat :=
  max 1 s.length

end Span

/-- No characters take no bytes. -/
@[simp] theorem bytes_nil : bytes [] = 0 := rfl

/-- The bytes of a character and of those behind it add up. -/
@[simp] theorem bytes_cons (c : Char) (cs : List Char) :
    bytes (c :: cs) = c.utf8Size + bytes cs := rfl

/-- The bytes of two texts add up. -/
@[simp] theorem bytes_append (xs ys : List Char) : bytes (xs ++ ys) = bytes xs + bytes ys := by
  induction xs with
  | nil => simp
  | cons c cs ih => simp [ih, Nat.add_assoc]

/-- The line ends of two texts add up. -/
@[simp] theorem newlines_append (xs ys : List Char) :
    newlines (xs ++ ys) = newlines xs + newlines ys := by
  simp [newlines]

end Stencil.Text
