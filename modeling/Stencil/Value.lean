import Stencil.Json
import Stencil.Program

/-!
Values of expressions. Besides data there are macros and the content of call blocks, both closed
over the parameters in scope where they were defined, and namespaces, which an import binds. Every
macro and every call block gets an identity of its own when it comes into being.

* `Value.member` and `Value.index` look into a value; what is not there is undefined.
* `Value.text` is what a value contributes to the output, except that a namespace with markup is
  left to the renderer.
* `Value.toJson` and `Value.ofJson` go to and from JSON.
* `Value.equals` compares values.
-/

namespace Stencil

/-- Values. -/
inductive Value where
  /-- What is missing. -/
  | undefined
  | nothing
  | bool (b : Bool)
  | number (n : Number)
  | string (s : String)
  | list (items : List Value)
  | map (entries : Dict Value)
  /-- A macro with the parameters in scope where it was defined, innermost call first. -/
  | closure (id : Nat) (m : Macro) (scope : List (Dict Value))
  /-- The content of a call block. Inside, `caller` is the `outer` one, if there was one. -/
  | block (id : Nat) (body : List Instr) (outer : Option Value) (scope : List (Dict Value))
  /-- A namespace: macros by name and, once it is complete, the markup it shows. -/
  | space (members : Dict Value) (markup : Option (List Instr × List (Dict Value)))
  deriving Inhabited

/-- The parameters in scope, innermost call first. -/
abbrev Scope := List (Dict Value)

/-- The value of the innermost parameter of that name. -/
def Scope.get? (s : Scope) (name : String) : Option Value :=
  s.findSome? (·.get? name)

namespace Value

/-- The name of the type of a value. -/
def type : Value → String
  | undefined => "undefined"
  | nothing => "none"
  | bool _ => "bool"
  | number _ => "number"
  | string _ => "string"
  | list _ => "list"
  | map _ => "map"
  | closure .. => "macro"
  | block .. => "macro"
  | space .. => "namespace"

/-- Whether the value is missing. -/
def isUndefined : Value → Bool
  | undefined => true
  | _ => false

/-- Whether calling the value gives markup, which is not to be escaped again. -/
def isSafe : Value → Bool
  | closure .. | block .. => true
  | _ => false

/-- The member of that name. Lists and strings have their length as one. -/
def member (v : Value) (name : String) : Value :=
  match v with
  | map entries => (entries.get? name).getD undefined
  | space members _ => (members.get? name).getD undefined
  | list items => if name = "length" then number (.ofNat items.length) else undefined
  | string s => if name = "length" then number (.ofNat s.length) else undefined
  | _ => undefined

/-- What stands at a place: an item of a list at a whole number, a member at a string. -/
def index (v place : Value) : Value :=
  match v, place with
  | list items, number n => ((n.toNat?.bind (items[·]?)).getD undefined)
  | v, string name => v.member name
  | _, _ => undefined

mutual

/-- The JSON form. What has none becomes null. -/
def toJson : Value → Json
  | bool b => .bool b
  | number n =>
    match n.short?, n with
    | some i, _ => .integer i
    | none, .finite .. => .float n
    | none, _ => .null
  | string s => .string s
  | list items => .array (itemsToJson items)
  | map ⟨entries⟩ => .object ⟨entriesToJson entries⟩
  | _ => .null

/-- The JSON forms of the items of a list. -/
def itemsToJson : List Value → List Json
  | [] => []
  | v :: rest => v.toJson :: itemsToJson rest

/-- The JSON forms of the entries of a map. -/
def entriesToJson {bound : Option String} : Dict.Entries Value bound → Dict.Entries Json bound
  | .nil => .nil
  | .cons k above v rest => .cons k above v.toJson (entriesToJson rest)

end

mutual

/-- The value of JSON data. -/
def ofJson : Json → Value
  | .null => nothing
  | .bool b => bool b
  | .integer n => number (.ofInt n)
  | .float x => number x
  | .string s => string s
  | .array items => list (itemsOfJson items)
  | .object ⟨members⟩ => map ⟨entriesOfJson members⟩

/-- The values of the items of an array. -/
def itemsOfJson : List Json → List Value
  | [] => []
  | j :: rest => ofJson j :: itemsOfJson rest

/-- The values of the members of an object. -/
def entriesOfJson {bound : Option String} : Dict.Entries Json bound → Dict.Entries Value bound
  | .nil => .nil
  | .cons k above j rest => .cons k above (ofJson j) (entriesOfJson rest)

end

mutual

/-- The text of a value in the output. Macros, and namespaces as such, show nothing. -/
def text : Value → String
  | bool b => if b then "true" else "false"
  | number n => n.text
  | string s => s
  | list items => ",".intercalate (texts items)
  | map entries => (map entries).toJson.write
  | _ => ""

/-- The texts of the items of a list. -/
def texts : List Value → List String
  | [] => []
  | v :: rest => v.text :: texts rest

end

mutual

/-- Equality: macros are equal if they are the same, namespaces if their members are equal. -/
def equals : Value → Value → Bool
  | undefined, undefined => true
  | nothing, nothing => true
  | bool a, bool b => a == b
  | number a, number b => a.equals b
  | string a, string b => a == b
  | list a, list b => itemsEqual a b
  | map ⟨a⟩, map ⟨b⟩ => entriesEqual a b
  | closure a _ _, closure b _ _ => a == b
  | block a _ _ _, block b _ _ _ => a == b
  | space ⟨a⟩ _, space ⟨b⟩ _ => entriesEqual a b
  | _, _ => false

/-- Equality of lists, item by item. -/
def itemsEqual : List Value → List Value → Bool
  | [], [] => true
  | v :: rest, w :: rest' => v.equals w && itemsEqual rest rest'
  | _, _ => false

/-- Equality of the entries of maps. -/
def entriesEqual {bound bound' : Option String} :
    Dict.Entries Value bound → Dict.Entries Value bound' → Bool
  | .nil, .nil => true
  | .cons k _ v rest, .cons k' _ w rest' => k == k' && v.equals w && entriesEqual rest rest'
  | _, _ => false

end

end Value

end Stencil
