import Stencil.Proofs.Number.Whole
import Stencil.Value

/-!
Values as JSON. **Data** are the values that JSON has a form for: none, truth values, numbers,
strings, lists and maps; with numbers that are short integers they are `Value.IsData`, and the JSON
that corresponds to them is `Json.IsShort`. The two conversions go through lists and maps item by
item (`Value.itemsToJson_eq_map` and the lemmas beside it), so that what they do to all data follows
from what they do to numbers.

* JSON that becomes a value becomes the same JSON again (`Json.IsShort.toJson_ofJson`).
* A value that becomes JSON becomes an equal value again (`Value.IsData.equals_ofJson`), but not
  always the same, since the sign of a zero is lost.
* What stands at a place in a value has its JSON form at the same place (`Value.at?_toJson`),
  whatever stands at other places. Macros, namespaces and what is missing are **formless**
  (`Value.IsFormless`); their form is null.

The main result is `data_survives`.
-/

namespace Stencil

/-! ### Data -/

/-- **JSON with short numbers**: all of them are integers of at most fifteen digits. -/
inductive Json.IsShort : Json → Prop
  | null : IsShort .null
  | bool (b : Bool) : IsShort (.bool b)
  | integer {n : Int} : n.natAbs < 10 ^ 15 → IsShort (.integer n)
  | string (s : String) : IsShort (.string s)
  | array {items : List Json} : (∀ j ∈ items, IsShort j) → IsShort (.array items)
  | object {members : Dict Json} : (∀ p ∈ members.entries, IsShort p.2) →
      IsShort (.object members)

namespace Value

/-- **Values that are data**, with numbers that are short. -/
inductive IsData : Value → Prop
  | nothing : IsData .nothing
  | bool (b : Bool) : IsData (.bool b)
  | number {n : Number} : n.IsShort → IsData (.number n)
  | string (s : String) : IsData (.string s)
  | list {items : List Value} : (∀ v ∈ items, IsData v) → IsData (.list items)
  | map {entries : Dict Value} : (∀ p ∈ entries.entries, IsData p.2) → IsData (.map entries)

/-- **Values without a JSON form.** -/
inductive IsFormless : Value → Prop
  | undefined : IsFormless .undefined
  | closure (id : Nat) (m : Macro) (scope : Scope) : IsFormless (.closure id m scope)
  | block (id : Nat) (body : List Instr) (outer : Option Value) (scope : Scope) :
      IsFormless (.block id body outer scope)
  | space (members : Dict Value) (markup : Option (List Instr × Scope)) :
      IsFormless (.space members markup)

/-! ### Item by item -/

lemma itemsToJson_eq_map (vs : List Value) : itemsToJson vs = vs.map toJson := by
  induction vs with
  | nil => rfl
  | cons v vs ih => rw [itemsToJson, ih, List.map_cons]

lemma itemsOfJson_eq_map (js : List Json) : itemsOfJson js = js.map ofJson := by
  induction js with
  | nil => rfl
  | cons j js ih => rw [itemsOfJson, ih, List.map_cons]

/-- A list is equal to one made of values equal to its own. -/
lemma itemsEqual_map {f : Value → Value} {vs : List Value}
    (h : ∀ v ∈ vs, (f v).equals v = true) : itemsEqual (vs.map f) vs = true := by
  induction vs with
  | nil => rfl
  | cons v vs ih =>
    obtain ⟨hv, hvs⟩ := List.forall_mem_cons.1 h
    rw [List.map_cons, itemsEqual, hv, ih hvs]
    rfl

/-- Entries that become the same one by one are the same again. -/
lemma entriesToJson_ofJson {bound : Option String} {es : Dict.Entries Json bound}
    (h : ∀ p ∈ es.toList, (ofJson p.2).toJson = p.2) : entriesToJson (entriesOfJson es) = es := by
  induction es with
  | nil => rfl
  | cons k above j rest ih =>
    obtain ⟨hj, hrest⟩ := List.forall_mem_cons.1 h
    rw [entriesOfJson, entriesToJson, hj, ih hrest]

lemma entriesEqual_ofJson {bound : Option String} {es : Dict.Entries Value bound}
    (h : ∀ p ∈ es.toList, (ofJson p.2.toJson).equals p.2 = true) :
    entriesEqual (entriesOfJson (entriesToJson es)) es = true := by
  induction es with
  | nil => rfl
  | cons k above v rest ih =>
    obtain ⟨hv, hrest⟩ := List.forall_mem_cons.1 h
    rw [entriesToJson, entriesOfJson, entriesEqual, hv, ih hrest, beq_self_eq_true]
    rfl

/-! ### There and back -/

lemma toJson_number {n : Number} {i : Int} (h : n.short? = some i) :
    (number n).toJson = .integer i := by
  simp only [toJson, h]

end Value

/-- **JSON becomes a value and the same JSON again.** -/
lemma Json.IsShort.toJson_ofJson {j : Json} (h : j.IsShort) : (Value.ofJson j).toJson = j := by
  induction h with
  | null => rfl
  | bool b => rfl
  | integer hn => exact Value.toJson_number (Number.short?_ofInt hn)
  | string s => rfl
  | @array items _ ih =>
    have hitems : (items.map Value.ofJson).map Value.toJson = items := by
      rw [List.map_map]
      exact (List.map_congr_left ih).trans (List.map_id items)
    rw [Value.ofJson, Value.toJson, Value.itemsOfJson_eq_map, Value.itemsToJson_eq_map, hitems]
  | object _ ih => rw [Value.ofJson, Value.toJson, Value.entriesToJson_ofJson ih]

/-- **A value becomes JSON and an equal value again.** -/
lemma Value.IsData.equals_ofJson {v : Value} (h : v.IsData) :
    (ofJson v.toJson).equals v = true := by
  induction h with
  | nothing => rfl
  | bool b => exact beq_self_eq_true b
  | number hn =>
    obtain ⟨i, hi, hequals⟩ := hn.equals_ofInt
    rw [toJson_number hi]
    exact hequals
  | string s => exact beq_self_eq_true s
  | list _ ih =>
    rw [toJson, ofJson, equals, itemsToJson_eq_map, itemsOfJson_eq_map, List.map_map]
    exact itemsEqual_map ih
  | map _ ih =>
    rw [toJson, ofJson, equals]
    exact entriesEqual_ofJson ih

/-! ### Places -/

/-- A step into data: to an item of a list or to an entry of a map. -/
inductive Step where
  | item (i : Nat)
  | entry (name : String)

namespace Json

/-- What a step leads to. -/
def child? : Json → Step → Option Json
  | array items, .item i => items[i]?
  | object members, .entry name => members.get? name
  | _, _ => none

/-- What stands at the end of a path. -/
def at? (j : Json) : List Step → Option Json
  | [] => some j
  | step :: path => (j.child? step).bind fun child => child.at? path

end Json

namespace Value

/-- What a step leads to. Macros and namespaces are not entered. -/
def child? : Value → Step → Option Value
  | list items, .item i => items[i]?
  | map entries, .entry name => entries.get? name
  | _, _ => none

/-- What stands at the end of a path. -/
def at? (v : Value) : List Step → Option Value
  | [] => some v
  | step :: path => (v.child? step).bind fun child => child.at? path

lemma find?_entriesToJson {bound : Option String} (es : Dict.Entries Value bound) (name : String) :
    Dict.find? (entriesToJson es).toList name = (Dict.find? es.toList name).map toJson := by
  induction es with
  | nil => rfl
  | cons k above v rest ih =>
    rw [entriesToJson, Dict.Entries.toList, Dict.Entries.toList, Dict.find?, Dict.find?, ih]
    split <;> rfl

lemma toJson_of_isFormless {v : Value} (h : v.IsFormless) : v.toJson = .null := by
  cases h <;> rfl

/-- One step leads to the form of what it leads to. -/
lemma child?_toJson (v : Value) (step : Step) :
    v.toJson.child? step = (v.child? step).map toJson := by
  cases v with
  | list items =>
    cases step with
    | item i =>
      rw [toJson, itemsToJson_eq_map]
      exact List.getElem?_map
    | entry name => rfl
  | map entries =>
    cases step with
    | item i => rfl
    | entry name => exact find?_entriesToJson entries.root name
  | number n =>
    rw [toJson.eq_def]
    dsimp only
    split <;> rfl
  | _ => rfl

/-- **The form of what stands at a place** stands at the same place. -/
lemma at?_toJson (v : Value) (path : List Step) : v.toJson.at? path = (v.at? path).map toJson := by
  induction path generalizing v with
  | nil => rfl
  | cons step path ih =>
    rw [Json.at?, at?, child?_toJson]
    cases v.child? step with
    | none => rfl
    | some w => exact ih w

end Value

/-- **Data survive as JSON.** JSON with short numbers, whatever lists and objects it is nested in,
is the same again after it has been turned into a value, and a value that is data is equal to what
its JSON is turned into. In every value, whatever stands in a list or a map, at whatever depth, has
its own form at the same place, and nothing else is there; the form of macros, of call blocks, of
namespaces and of what is missing is null. -/
theorem data_survives :
    (∀ j : Json, j.IsShort → (Value.ofJson j).toJson = j) ∧
    (∀ v : Value, v.IsData → (Value.ofJson v.toJson).equals v = true) ∧
    ∀ (v : Value) (path : List Step), v.toJson.at? path = (v.at? path).map Value.toJson ∧
      ∀ w, v.at? path = some w → w.IsFormless → v.toJson.at? path = some .null := by
  refine ⟨fun _ h => h.toJson_ofJson, fun _ h => h.equals_ofJson, fun v path =>
    ⟨v.at?_toJson path, fun w hw hformless => ?_⟩⟩
  rw [v.at?_toJson path, hw, Option.map_some, Value.toJson_of_isFormless hformless]

/-- A visitor with scores. -/
def Json.visitor : Json :=
  .object (.ofList [("name", .string "Ann"), ("scores", .array [.integer (-7), .null, .array []])])

/-- Scores among which there is the negative zero. -/
def Value.scores : Value :=
  .map (.ofList [("best", .number (.finite true 0 0)), ("names", .list [.string "Ann", .nothing])])

/-- A namespace and a number side by side. -/
def Value.widgets : Value :=
  .map (.ofList [("all", .list [.space .empty none, .number (.finite true 0 0)])])

/-- JSON and a value survive, and beside a number a namespace becomes null. -/
theorem visitor_survives :
    (Json.visitor.IsShort ∧ (Value.ofJson Json.visitor).toJson = Json.visitor) ∧
    (Value.scores.IsData ∧ (Value.ofJson Value.scores.toJson).equals Value.scores = true) ∧
    Value.widgets.at? [.entry "all", .item 0] = some (.space .empty none) ∧
    Value.widgets.toJson.at? [.entry "all", .item 0] = some .null ∧
    Value.widgets.toJson.at? [.entry "all", .item 1] = some (.integer 0) := by
  have hvisitor : Json.visitor.IsShort := by
    refine .object (List.forall_mem_cons.2 ⟨.string "Ann", List.forall_mem_singleton.2 (.array ?_)⟩)
    simp only [List.forall_mem_cons, List.not_mem_nil, false_imp_iff, implies_true, and_true]
    exact ⟨.integer (by decide), .null, .array (by simp)⟩
  have hscores : Value.scores.IsData := by
    have hzero : Number.IsShort (.finite true 0 0) :=
      .finite (k := 0) Number.canonical_zero (by decide) (by simp)
    refine .map (List.forall_mem_cons.2 ⟨.number hzero, List.forall_mem_singleton.2 (.list ?_)⟩)
    exact List.forall_mem_cons.2 ⟨.string "Ann", List.forall_mem_singleton.2 .nothing⟩
  have hspace : Value.widgets.at? [.entry "all", .item 0] = some (.space .empty none) := rfl
  have hwidgets := data_survives.2.2 Value.widgets
  refine ⟨⟨hvisitor, data_survives.1 _ hvisitor⟩, ⟨hscores, data_survives.2.1 _ hscores⟩, hspace,
    (hwidgets _).2 _ hspace (.space _ _), ?_⟩
  rw [(hwidgets _).1]
  exact congrArg some (Value.toJson_number (Number.short?_of_units (k := 0) (by simp) (by decide)))

end Stencil
