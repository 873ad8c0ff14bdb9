import Stencil.SyntaxError

/-!
Cutting a template at its delimiters. Comments, outputs and tags reach up to the first closing
delimiter, whatever stands in between; all else is text. `segments` cuts a whole template, and
fails at the first opening delimiter that is never closed.
-/

namespace Stencil

open Text (bytes newlines)

/-- The kinds of segments. -/
inductive SegmentKind where
  | text
  | comment
  | output
  | tag
  deriving DecidableEq, Repr

/-- A piece of a template. -/
structure Segment where
  kind : SegmentKind
  /-- The characters between the delimiters, or the text. -/
  body : List Char
  /-- The offset of the first byte. -/
  start : Nat
  line : Nat
  deriving DecidableEq, Repr

namespace Segment

/-- The characters in the second place of an opening delimiter, with what they open and the
characters of the closing delimiter. -/
def delimiter? (c : Char) : Option (SegmentKind × Char × Char) :=
  if c = '#' then some (.comment, '#', '\x7d')
  else if c = '\x7b' then some (.output, '\x7d', '\x7d')
  else if c = '%' then some (.tag, '%', '\x7d')
  else none

/-- Whether an opening delimiter comes next. -/
def opens : List Char → Bool
  | c :: d :: _ => c == '\x7b' && (delimiter? d).isSome
  | _ => false

/-- The characters up to the closing delimiter `a`, `b`, and those behind it. -/
def untilClose (a b : Char) : List Char → Option (List Char × List Char)
  | [] => none
  | [_] => none
  | c :: d :: rest =>
    if c = a ∧ d = b then some ([], rest)
    else (untilClose a b (d :: rest)).map fun r => (c :: r.1, r.2)

/-- The text up to the next opening delimiter, and what follows it. -/
def textRun : List Char → List Char × List Char
  | [] => ([], [])
  | c :: rest =>
    if opens (c :: rest) then ([], c :: rest)
    else
      let r := textRun rest
      (c :: r.1, r.2)

/-- A text that starts with `c`. -/
def startText (c : Char) (rest : List Char) : SegmentKind × List Char × List Char :=
  let r := textRun rest
  (.text, c :: r.1, r.2)

/-- The first piece of a template: its kind, its body and what follows it. -/
def first? : List Char → Option (SegmentKind × List Char × List Char)
  | [] => none
  | [c] => some (.text, [c], [])
  | c :: d :: rest =>
    if c = '\x7b' then
      match delimiter? d with
      | some (kind, a, b) => (untilClose a b rest).map fun r => (kind, r.1, r.2)
      | none => some (startText c (d :: rest))
    else some (startText c (d :: rest))

/-- The offset at which the body starts. -/
def bodyStart (s : Segment) : Nat :=
  if s.kind = .text then s.start else s.start + 2

/-- The place of the segment, delimiters included. -/
def span (s : Segment) : Text.Span :=
  ⟨s.start, s.start + bytes s.body + if s.kind = .text then 0 else 4⟩

/-- The source of a piece, delimiters included. -/
def source (kind : SegmentKind) (body : List Char) : List Char :=
  match kind with
  | .text => body
  | .comment => '\x7b' :: '#' :: (body ++ ['#', '\x7d'])
  | .output => '\x7b' :: '\x7b' :: (body ++ ['\x7d', '\x7d'])
  | .tag => '\x7b' :: '%' :: (body ++ ['%', '\x7d'])

/-! ### Nothing is lost -/

/-- What stands before a closing delimiter, the delimiter and the rest make up the text. -/
theorem untilClose_append {a b : Char} {cs : List Char} {r : List Char × List Char}
    (h : untilClose a b cs = some r) : r.1 ++ a :: b :: r.2 = cs := by
  fun_induction untilClose a b cs generalizing r with
  | case1 => cases h
  | case2 => cases h
  | case3 c d rest hc => obtain ⟨rfl, rfl⟩ := hc; cases h; rfl
  | case4 c d rest _ ih =>
    obtain ⟨r', hr', rfl⟩ := Option.map_eq_some_iff.1 h
    simp [ih hr']

/-- A run of text and what follows it make up the whole. -/
theorem textRun_append (cs : List Char) : (textRun cs).1 ++ (textRun cs).2 = cs := by
  induction cs with
  | nil => rfl
  | cons c rest ih =>
    rw [textRun]
    split
    · rfl
    · simp [ih]

/-- The first piece and what follows it make up the template. -/
theorem first?_append {cs : List Char} {kind : SegmentKind} {body rest : List Char}
    (h : first? cs = some (kind, body, rest)) : source kind body ++ rest = cs := by
  unfold first? at h
  split at h
  · cases h
  · cases h; rfl
  next c d tail =>
    split at h
    next hc =>
      split at h
      next kind' a b hd =>
        obtain ⟨r, hr, he⟩ := Option.map_eq_some_iff.1 h
        cases he
        have happ := untilClose_append hr
        unfold delimiter? at hd
        split at hd
        next h1 => cases hd; simp [source, ← happ, hc, h1]
        next =>
          split at hd
          next h2 => cases hd; simp [source, ← happ, hc, h2]
          next =>
            split at hd
            next h3 => cases hd; simp [source, ← happ, hc, h3]
            next => cases hd
      next => cases h; simp [source, textRun_append]
    next => cases h; simp [source, textRun_append]

/-- Behind a piece the template is shorter. -/
theorem first?_length {cs : List Char} {kind : SegmentKind} {body rest : List Char}
    (h : first? cs = some (kind, body, rest)) : rest.length < cs.length := by
  have happ := first?_append h
  have hne : source kind body ≠ [] := by
    cases kind with
    | text =>
      intro hnil
      have hb : body = [] := hnil
      subst hb
      unfold first? at h
      split at h
      · cases h
      · cases h
      next c d tail =>
        split at h
        next =>
          split at h
          next kind' a b hd =>
            obtain ⟨r, hr, he⟩ := Option.map_eq_some_iff.1 h
            simp only [Prod.mk.injEq] at he
            rw [he.1, delimiter?] at hd
            repeat' split at hd
            all_goals cases hd
          next => cases h
        next => cases h
    | comment => simp [source]
    | output => simp [source]
    | tag => simp [source]
  have hpos := List.length_pos_iff.2 hne
  rw [← happ]
  simp only [List.length_append]
  omega

/-- The pieces of a template that starts at byte `offset` on line `line`. -/
def segments (cs : List Char) (offset line : Nat) : Except SyntaxError (List Segment) :=
  match cs with
  | [] => .ok []
  | c :: cs =>
    match _found : first? (c :: cs) with
    | none => .error ⟨.unclosedDelimiter, line, ⟨offset, offset⟩, []⟩
    | some (kind, body, rest) =>
      let whole := source kind body
      match segments rest (offset + bytes whole) (line + newlines whole) with
      | .ok more => .ok (⟨kind, body, offset, line⟩ :: more)
      | .error e => .error e
termination_by cs.length
decreasing_by exact first?_length _found

end Segment

end Stencil
