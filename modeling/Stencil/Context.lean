import Stencil.Error
import Stencil.Value

/-!
The context: the names that are visible everywhere, with their values. Two contexts with
the same view `Context.get?` are equal (`Context.ext_get?`).

`Context.restore` merges a snapshot into a context. The larger of the two wins where both have an
entry, and the snapshot wins if both have the same size.
-/

namespace Stencil

/-- Names with their values. -/
structure Context where
  entries : Dict Value

namespace Context

/-- No names. -/
def empty : Context := ⟨.empty⟩

instance : Inhabited Context := ⟨empty⟩

/-- The value of a name. -/
def get? (c : Context) (name : String) : Option Value :=
  c.entries.get? name

/-- The context with the value at the name. -/
def insert (c : Context) (name : String) (v : Value) : Context :=
  ⟨c.entries.insert name v⟩

/-- The context without the name. -/
def erase (c : Context) (name : String) : Context :=
  ⟨c.entries.erase name⟩

/-- The context with the value at the name, or without the name if there is none. -/
def set (c : Context) (name : String) : Option Value → Context
  | some v => c.insert name v
  | none => c.erase name

/-- The context without any of the names. -/
def eraseAll (c : Context) (names : List String) : Context :=
  names.foldl erase c

/-- The entries of both, those of the first winning. -/
def union (c d : Context) : Context :=
  ⟨c.entries.union d.entries⟩

/-- The names in order. -/
def keys (c : Context) : List String :=
  c.entries.keys

/-- The number of names. -/
def size (c : Context) : Nat :=
  c.entries.size

/-- The context with the entries of a snapshot merged in: of two entries for one name the one of
the larger context is kept, and that of the snapshot if the sizes are equal. -/
def restore (c snapshot : Context) : Context :=
  if c.size ≤ snapshot.size then snapshot.union c else c.union snapshot

/-- The context of JSON data, which has to be an object. -/
def ofJson (j : Json) : Except Error Context :=
  match Value.ofJson j with
  | .map entries => .ok ⟨entries⟩
  | v => .error (.notAnObject v.type)

/-! ### The view of each operation -/

/-- Contexts with the same view are equal. -/
theorem ext_get? {c d : Context} (h : ∀ k, c.get? k = d.get? k) : c = d := by
  cases c
  cases d
  exact congrArg mk (Dict.ext_get? h)

/-- The empty context has no names. -/
@[simp] theorem get?_empty (k : String) : empty.get? k = none := rfl

/-- Inserting changes the view at the name and nowhere else. -/
theorem get?_insert (c : Context) (k x : String) (v : Value) :
    (c.insert k v).get? x = if k = x then some v else c.get? x :=
  Dict.get?_insert c.entries k x v

/-- What has been inserted is there. -/
theorem get?_insert_self (c : Context) (k : String) (v : Value) :
    (c.insert k v).get? k = some v :=
  Dict.get?_insert_self c.entries k v

/-- Erasing changes the view at the name and nowhere else. -/
theorem get?_erase (c : Context) (k x : String) :
    (c.erase k).get? x = if k = x then none else c.get? x :=
  Dict.get?_erase c.entries k x

/-- Setting an entry or its absence changes the view at the name and nowhere else. -/
theorem get?_set (c : Context) (k x : String) (v : Option Value) :
    (c.set k v).get? x = if k = x then v else c.get? x := by
  cases v with
  | none => exact get?_erase c k x
  | some v => exact get?_insert c k x v

/-- Erasing several names changes the view at these names and nowhere else. -/
theorem get?_eraseAll (c : Context) (names : List String) (x : String) :
    (c.eraseAll names).get? x = if x ∈ names then none else c.get? x := by
  unfold eraseAll
  induction names generalizing c with
  | nil => simp
  | cons k rest ih =>
    rw [List.foldl_cons, ih, get?_erase]
    by_cases hx : x ∈ rest
    · simp [hx]
    · by_cases hk : k = x
      · simp [hk]
      · simp [hx, hk, Ne.symm hk]

/-- A union shows the first context where that has the name, and else the second. -/
theorem get?_union (c d : Context) (x : String) :
    (c.union d).get? x = (c.get? x).or (d.get? x) :=
  Dict.get?_union c.entries d.entries x

/-- A snapshot that is at least as large wins. -/
theorem get?_restore_of_le {c snapshot : Context} (h : c.size ≤ snapshot.size) (x : String) :
    (c.restore snapshot).get? x = (snapshot.get? x).or (c.get? x) := by
  rw [restore, if_pos h, get?_union]

/-- A snapshot that is smaller loses. -/
theorem get?_restore_of_lt {c snapshot : Context} (h : snapshot.size < c.size) (x : String) :
    (c.restore snapshot).get? x = (c.get? x).or (snapshot.get? x) := by
  rw [restore, if_neg (Nat.not_le.2 h), get?_union]

end Context

end Stencil
