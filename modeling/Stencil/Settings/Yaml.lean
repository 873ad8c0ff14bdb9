import Stencil.Settings.Yaml.Scalar

/-!
Reading the part of YAML that settings need: a map, in braces or with one entry a line, of scalars
and lists of scalars, which stand in brackets or have one item a line. `readMap?` reads the map of
a text, and refuses anything else.
-/

namespace Stencil

/-- What an entry of a map has as its value. -/
inductive Yaml where
  | scalar (s : Yaml.Scalar)
  | list (items : List String)

namespace Yaml

/-- What is written as nothing at all. -/
def absent : Yaml := .scalar ⟨true, ""⟩

/-- The items of a list in brackets, up to the closing one, and what follows it. Every item takes a
character, so the number of characters is enough `fuel`. -/
def items (indent : Nat) : (fuel : Nat) → Rest → Option (List String × Rest)
  | 0, _ => none
  | fuel + 1, r =>
    let r := r.skip true
    match r.after? ']' with
    | some r => some ([], r)
    | none => do
      let (item, r) ← scalar? true indent r
      let r := r.skip true
      match r.after? ',' with
      | some r =>
        let (more, r) ← items indent fuel r
        return (item.text :: more, r)
      | none =>
        let r ← r.after? ']'
        return ([item.text], r)

/-- A scalar or a list in brackets, and what follows it. -/
def value? (flow : Bool) (indent : Nat) (r : Rest) : Option (Yaml × Rest) :=
  match r.after? '[' with
  | some r => (items indent (r.cells.length + 1) r).map fun p => (.list p.1, p.2)
  | none => (scalar? flow indent r).map fun p => (.scalar p.1, p.2)

/-! ### Maps in braces -/

/-- The value of an entry in braces and what follows it, behind a key that stands where `key` does.
The colon has to be near the key; without one there is no value. -/
def flowValue? (key r : Rest) : Option (Yaml × Rest) :=
  match r.after? ':' with
  | none => some (absent, r)
  | some behind =>
    let behind := behind.skip true
    if !r.isNear key then none
    else if (behind.after? ',').isSome || (behind.after? '\x7d').isSome then some (absent, behind)
    else value? true 0 behind

/-- The entries of a map in braces, up to the closing one, and what follows it. -/
def flowEntries : (fuel : Nat) → Rest → Option (List (String × Yaml) × Rest)
  | 0, _ => none
  | fuel + 1, r =>
    let key := r.skip true
    match key.after? '\x7d' with
    | some r => some ([], r)
    | none => do
      let (k, r) ← scalar? true 0 key
      let (v, r) ← flowValue? key (r.skip true)
      let r := r.skip true
      match r.after? ',' with
      | some r =>
        let (more, r) ← flowEntries fuel r
        return ((k.text, v) :: more, r)
      | none =>
        let r ← r.after? '\x7d'
        return ([(k.text, v)], r)

/-! ### Maps with one entry a line -/

/-- What stands behind the dash of an item, and what follows it. The item is indented more than the
dash, which stands in column `dash`; otherwise there is none. -/
def blockItem? (dash : Nat) (r : Rest) : Option (String × Rest) :=
  if r.column?.all (· ≤ dash) then some ("", r)
  else (scalar? false (dash + 1) r).map fun p => (p.1.text, p.2.skip false)

/-- The items whose dashes stand in column `dash`, and what follows them. -/
def blockItems (dash : Nat) : (fuel : Nat) → Rest → Option (List String × Rest)
  | 0, _ => none
  | fuel + 1, r =>
    match r.afterDash? with
    | some behind =>
      if r.column? == some dash then do
        let (item, r) ← blockItem? dash (behind.skip false)
        let (more, r) ← blockItems dash fuel r
        return (item :: more, r)
      else some ([], r)
    | none => some ([], r)

/-- The value of an entry and what follows it, behind the colon of a key in column `key`. A list
starts on a new line, not left of the key; any other value is indented more than the key. -/
def blockValue? (key : Nat) (r : Rest) : Option (Yaml × Rest) :=
  match r.column? with
  | none => some (absent, r)
  | some column =>
    if r.fresh ∧ r.afterDash?.isSome ∧ key ≤ column then
      (blockItems column (r.cells.length + 1) r).map fun p => (.list p.1, p.2)
    else if column ≤ key then some (absent, r)
    else (value? false (key + 1) r).map fun p => (p.1, p.2.skip false)

/-- The entries whose keys stand in column `key`, up to the end of the document, and what follows
them. -/
def blockEntries (key : Nat) : (fuel : Nat) → Rest → Option (List (String × Yaml) × Rest)
  | 0, _ => none
  | fuel + 1, r =>
    if r.cells.isEmpty || atMarker r.cells then some ([], r)
    else if r.column? != some key then none
    else do
      let (k, colon) ← scalar? false (key + 1) r
      let colon := colon.skip false
      let behind ← colon.after? ':'
      if !(colon.isNear r && endsWord behind.cells) then none
      let (v, r) ← blockValue? key (behind.skip false)
      let (more, r) ← blockEntries key fuel r
      return ((k.text, v) :: more, r)

/-! ### Documents -/

/-- Whether nothing comes behind a document but markers of its end. -/
def isEnd : (fuel : Nat) → Rest → Bool
  | 0, _ => false
  | fuel + 1, r =>
    r.cells.isEmpty || (r.afterMarker? '.').any fun behind => isEnd fuel (behind.skip false)

/-- The entries of a document and what follows it. One with nothing in it has no entries. -/
def document? (r : Rest) : Option (List (String × Yaml) × Rest) :=
  match r.after? '\x7b' with
  | some behind =>
    (flowEntries (behind.cells.length + 1) behind).map fun p => (p.1, p.2.skip false)
  | none =>
    if r.fresh || r.cells.isEmpty || atMarker r.cells then
      blockEntries (r.column?.getD 0) (r.cells.length + 1) r
    else none

/-- The entries of the map that a text holds. -/
def readMap? (text : String) : Option (List (String × Yaml)) := do
  let cells ← cells? text
  let start := (Rest.mk true cells).skip false
  if (start.afterMarker? '.').isSome then none
  let body := match start.afterMarker? '-' with
    | some behind => behind.skip false
    | none => start
  let (entries, r) ← document? body
  if isEnd (r.cells.length + 1) r then some entries else none

end Yaml

end Stencil
