import Stencil.Settings
import Stencil.Settings.Yaml

/-!
Reading settings. A map gives some of the settings and leaves the rest as they are; a setting that
is unknown or given twice is refused, and so is a value of another kind than the setting has.
-/

namespace Stencil.Settings

/-- The value of digits in the given base, each at most the last one of the base. -/
def digitsIn? (base : Nat) (cs : List Char) : Option Nat :=
  if cs.isEmpty then none
  else cs.foldlM (fun n c => (Text.hexDigit? c).bind fun d =>
    if d < base then some (base * n + d) else none) 0

/-- Whether the digits start with a zero too many. -/
def hasLeadingZero (cs : List Char) : Bool :=
  1 < cs.length && cs.head? == some '0' && cs.all Char.isDigit

/-- The value of a natural number of at most 64 bits, which may have a sign, and a base in front. -/
def natural? (text : String) : Option Nat :=
  let cs := text.toList
  let cs := if cs.head? == some '+' then cs.tail else cs
  let n :=
    match cs with
    | '0' :: 'x' :: digits => digitsIn? 16 digits
    | '0' :: 'o' :: digits => digitsIn? 8 digits
    | '0' :: 'b' :: digits => digitsIn? 2 digits
    | digits => if hasLeadingZero digits then none else digitsIn? 10 digits
  n.filter (· < UInt64.size)

/-- The text of a scalar. -/
def text? : Yaml → Option String
  | .scalar s => some s.text
  | .list _ => none

/-- The texts of a list; what is not written at all is an empty one. -/
def texts? : Yaml → Option (List String)
  | .list items => some items
  | .scalar ⟨true, ""⟩ => some []
  | .scalar _ => none

/-- The settings with one of them changed. -/
def change (s : Settings) (name : String) (v : Yaml) : Option Settings :=
  if name = "root" then (text? v).map fun root => { s with root }
  else if name = "extensions" then (texts? v).map fun extensions => { s with extensions }
  else if name = "max_import_depth" then
    match v with
    | .scalar ⟨true, text⟩ => (natural? text).map fun maxDepth => { s with maxDepth }
    | _ => none
  else none

/-- The settings changed by the entries of a map. -/
def changeAll (s : Settings) : List (String × Yaml) → Option Settings
  | [] => some s
  | (k, v) :: rest =>
    if rest.any (·.1 == k) then none else (s.change k v).bind (changeAll · rest)

/-- The settings that a text in YAML gives. -/
def read? (text : String) : Option Settings :=
  (Yaml.readMap? text).bind (changeAll {})

end Stencil.Settings
