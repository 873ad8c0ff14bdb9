import Stencil.Dict
import Stencil.Number.Notation
import Stencil.Text.Quoted

/-!
JSON values. Numbers are either integers or binary64 numbers, and the members of an object are
sorted by name. `Json.write` gives the text without blanks.
-/

namespace Stencil

/-- A JSON value. -/
inductive Json where
  | null
  | bool (b : Bool)
  | integer (n : Int)
  | float (x : Number)
  | string (s : String)
  | array (items : List Json)
  | object (members : Dict Json)
  deriving Inhabited

namespace Json

mutual

/-- The text of a JSON value, without blanks. -/
def write : Json → String
  | null => "null"
  | bool b => if b then "true" else "false"
  | integer n => toString n
  | float x => Layout.json.write x
  | string s => Text.jsonQuote s
  | array items => "[" ++ ",".intercalate (writeItems items) ++ "]"
  | object ⟨members⟩ => "\x7b" ++ ",".intercalate (writeMembers members) ++ "\x7d"

/-- The texts of the items of an array. -/
def writeItems : List Json → List String
  | [] => []
  | v :: rest => v.write :: writeItems rest

/-- The texts of the members of an object, each with its name. -/
def writeMembers {bound : Option String} : Dict.Entries Json bound → List String
  | .nil => []
  | .cons k _ v rest => (Text.jsonQuote k ++ ":" ++ v.write) :: writeMembers rest

end

end Json

end Stencil
