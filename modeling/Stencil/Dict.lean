/-!
Finite maps from names to values. A map consists of its entries in strictly ascending order of the
names, and only such entries can be put together (`Dict.Entries`). The view of a map is
`Dict.get?`; for each operation one lemma says what it does to the view, and maps with the same view
are equal (`Dict.ext_get?`). The order of the entries is the order in which maps are listed
everywhere in the library.
-/

namespace Stencil

universe u

namespace Dict

/-- The name is above the bound, if there is one. -/
def Above (bound : Option String) (k : String) : Prop :=
  ∀ l ∈ bound, l < k

theorem Above.none (k : String) : Above .none k :=
  fun _ h => nomatch h

theorem Above.some {k k' : String} (h : k < k') : Above (.some k) k' := by
  rintro l ⟨⟩
  exact h

theorem Above.lt {k k' : String} (h : Above (.some k) k') : k < k' :=
  h k rfl

theorem Above.trans {bound : Option String} {k k' : String} (h : Above bound k) (hlt : k < k') :
    Above bound k' :=
  fun l hl => String.lt_trans (h l hl) hlt

/-- A name is above another one if it is neither below it nor the same. -/
theorem Above.of_not_lt {k k' : String} (hlt : ¬ k < k') (hne : k ≠ k') : Above (.some k') k :=
  .some <| Decidable.byContradiction fun hn =>
    hne (String.le_antisymm (String.not_lt.1 hn) (String.not_lt.1 hlt))

/-- Entries in strictly ascending order of the names, all of which are above the bound if there is
one. -/
inductive Entries (α : Type u) : Option String → Type u
  | nil {bound : Option String} : Entries α bound
  | cons {bound : Option String} (k : String) (above : Above bound k) (v : α)
      (rest : Entries α (some k)) : Entries α bound

namespace Entries

variable {α : Type u}

/-- The entries as a list. -/
def toList {bound : Option String} : Entries α bound → List (String × α)
  | nil => []
  | cons k _ v rest => (k, v) :: rest.toList

/-- A value put in its place, if it may stand above the bound. -/
def place (k : String) (v : α) {bound : Option String} (above : Above bound k) :
    Entries α bound → Entries α bound
  | nil => cons k above v nil
  | cons k' above' v' rest =>
    if hlt : k < k' then cons k above v (cons k' (.some hlt) v' rest)
    else if heq : k = k' then cons k' above' v rest
    else cons k' above' v' (rest.place k v (.of_not_lt hlt heq))

/-- Entries above a name are above what the name is above. -/
def lower {bound : Option String} {k : String} (above : Above bound k) :
    Entries α (some k) → Entries α bound
  | nil => nil
  | cons k' above' v rest => cons k' (above.trans above'.lt) v rest

/-- The entries without the one for a name. -/
def without (k : String) {bound : Option String} : Entries α bound → Entries α bound
  | nil => nil
  | cons k' above v rest => if k' = k then rest.lower above else cons k' above v (rest.without k)

end Entries

end Dict

/-- A finite map. -/
structure Dict (α : Type u) where
  root : Dict.Entries α none

namespace Dict

variable {α : Type u}

/-- The entries in ascending order of the names. -/
def entries (d : Dict α) : List (String × α) :=
  d.root.toList

/-- The map without entries. -/
def empty : Dict α := ⟨.nil⟩

instance : Inhabited (Dict α) := ⟨empty⟩

/-- The value in a list of entries, the first one counting. -/
def find? : List (String × α) → String → Option α
  | [], _ => none
  | (k, v) :: rest, x => if k = x then some v else find? rest x

/-- The value of a name. -/
def get? (d : Dict α) (k : String) : Option α :=
  find? d.entries k

/-- The map with the value at the name, in the place of a former one. -/
def insert (d : Dict α) (k : String) (v : α) : Dict α :=
  ⟨d.root.place k v (.none k)⟩

/-- The map without the name. -/
def erase (d : Dict α) (k : String) : Dict α :=
  ⟨d.root.without k⟩

/-- The map with the entries of both, those of the first winning. -/
def union (d e : Dict α) : Dict α :=
  d.entries.foldr (fun p acc => acc.insert p.1 p.2) e

/-- The map of a list of entries, later ones winning. -/
def ofList (l : List (String × α)) : Dict α :=
  l.foldl (fun acc p => acc.insert p.1 p.2) empty

/-- The names in order. -/
def keys (d : Dict α) : List String :=
  d.entries.map (·.1)

/-- The number of entries. -/
def size (d : Dict α) : Nat :=
  d.entries.length

/-! ### The order of the entries -/

/-- The names of entries are above the bound. -/
theorem Entries.above_of_mem {bound : Option String} {es : Entries α bound} {e : String × α}
    (h : e ∈ es.toList) : Above bound e.1 := by
  induction es with
  | nil => cases h
  | cons k above v rest ih =>
    rcases List.mem_cons.1 h with rfl | h
    · exact above
    · exact above.trans (ih h).lt

theorem Entries.pairwise_toList {bound : Option String} (es : Entries α bound) :
    es.toList.Pairwise fun a b => a.1 < b.1 := by
  induction es with
  | nil => exact .nil
  | cons k above v rest ih => exact .cons (fun _ he => (above_of_mem he).lt) ih

/-- **The names are strictly ascending.** -/
theorem sorted (d : Dict α) : d.entries.Pairwise fun a b => a.1 < b.1 :=
  d.root.pairwise_toList

/-! ### The view of each operation -/

/-- The empty map has no names. -/
@[simp] theorem get?_empty (k : String) : (empty : Dict α).get? k = none := rfl

/-- Placing a value changes what is found at its name and nowhere else. -/
theorem Entries.find?_place (k x : String) (v : α) {bound : Option String} (above : Above bound k)
    (es : Entries α bound) :
    find? (es.place k v above).toList x = if k = x then some v else find? es.toList x := by
  induction es with
  | nil => rfl
  | cons k' above' v' rest ih =>
    rw [place]
    split
    · rfl
    · split
      next heq =>
        subst heq
        rw [toList, toList, find?, find?]
        split <;> rfl
      next hlt hne =>
        rw [toList, toList, find?, find?, ih]
        by_cases hx : k' = x
        · rw [if_pos hx, if_neg (hx ▸ hne)]
          exact (if_pos hx).symm
        · rw [if_neg hx, if_neg hx]

/-- Inserting changes the view at the name and nowhere else. -/
theorem get?_insert (d : Dict α) (k x : String) (v : α) :
    (d.insert k v).get? x = if k = x then some v else d.get? x :=
  d.root.find?_place k x v (.none k)

/-- A value that has been inserted is found. -/
@[simp] theorem get?_insert_self (d : Dict α) (k : String) (v : α) :
    (d.insert k v).get? k = some v := by
  simp [get?_insert]

/-- A name below all names of the entries is not found. -/
theorem Entries.find?_eq_none {k : String} (es : Entries α (some k)) {x : String}
    (h : x = k ∨ x < k) : find? es.toList x = none := by
  suffices hnone : ∀ l : List (String × α), (∀ e ∈ l, e.1 ≠ x) → find? l x = none by
    refine hnone _ fun e he heq => ?_
    have hlt := (above_of_mem he).lt
    rcases h with rfl | h
    · exact String.lt_irrefl x (heq ▸ hlt)
    · exact String.lt_irrefl x (String.lt_trans h (heq ▸ hlt))
  intro l hl
  induction l with
  | nil => rfl
  | cons p rest ih =>
    obtain ⟨hp, hrest⟩ := List.forall_mem_cons.1 hl
    rw [find?, if_neg hp, ih hrest]

/-- Leaving out a name changes what is found at it and nowhere else. -/
theorem Entries.find?_without (k x : String) {bound : Option String} (es : Entries α bound) :
    find? (es.without k).toList x = if k = x then none else find? es.toList x := by
  induction es with
  | nil => split <;> rfl
  | cons k' above v rest ih =>
    rw [without]
    split
    next heq =>
      subst heq
      have hlower : (rest.lower above).toList = rest.toList := by cases rest <;> rfl
      rw [hlower, toList, find?]
      split
      next hx => exact rest.find?_eq_none (.inl hx.symm)
      next => rfl
    next hne =>
      rw [toList, toList, find?, find?, ih]
      by_cases hx : k' = x
      · rw [if_pos hx, if_pos hx, if_neg (hx ▸ Ne.symm hne)]
      · rw [if_neg hx, if_neg hx]

/-- Erasing changes the view at the name and nowhere else. -/
theorem get?_erase (d : Dict α) (k x : String) :
    (d.erase k).get? x = if k = x then none else d.get? x :=
  d.root.find?_without k x

/-- A name that has been erased is not found. -/
@[simp] theorem get?_erase_self (d : Dict α) (k : String) : (d.erase k).get? k = none := by
  simp [get?_erase]

/-- Inserting a list of entries lets the first of each name win. -/
theorem get?_foldr_insert (l : List (String × α)) (e : Dict α) (x : String) :
    (l.foldr (fun p acc => acc.insert p.1 p.2) e).get? x = (find? l x).or (e.get? x) := by
  induction l with
  | nil => simp [find?]
  | cons p rest ih =>
    obtain ⟨k, v⟩ := p
    rw [List.foldr_cons, get?_insert, ih, find?]
    split <;> simp

/-- A union shows the first map where that has the name, and else the second. -/
theorem get?_union (d e : Dict α) (x : String) :
    (d.union e).get? x = (d.get? x).or (e.get? x) :=
  get?_foldr_insert d.entries e x

/-! ### Maps with the same view -/

/-- Entries in which the same is found are equal. -/
theorem Entries.eq_of_find?_eq {bound : Option String} {es es' : Entries α bound}
    (h : ∀ k, find? es.toList k = find? es'.toList k) : es = es' := by
  induction es with
  | nil =>
    cases es' with
    | nil => rfl
    | cons k above v rest => simpa [toList, find?] using h k
  | cons k above v rest ih =>
    cases es' with
    | nil => simpa [toList, find?] using h k
    | cons k' above' v' rest' =>
      simp only [toList] at h
      -- the lower one of the first names is found on one side only if they differ
      have hk : k = k' := by
        refine Decidable.byContradiction fun hne => ?_
        by_cases hlt : k < k'
        · have hfind := h k
          rw [find?, if_pos rfl, find?, if_neg (Ne.symm hne), rest'.find?_eq_none (.inr hlt)]
            at hfind
          cases hfind
        · have hfind := h k'
          rw [find?, if_neg hne, find?, if_pos rfl,
            rest.find?_eq_none (.inr (Above.of_not_lt hlt hne).lt)] at hfind
          cases hfind
      subst hk
      have hv : v = v' := by simpa [find?] using h k
      subst hv
      refine congrArg _ (ih fun x => ?_)
      by_cases hx : k = x
      · rw [rest.find?_eq_none (.inl hx.symm), rest'.find?_eq_none (.inl hx.symm)]
      · simpa [find?, hx] using h x

/-- **Maps with the same view are equal.** -/
theorem ext_get? {d e : Dict α} (h : ∀ k, d.get? k = e.get? k) : d = e := by
  cases d
  cases e
  exact congrArg mk (Entries.eq_of_find?_eq h)

/-- A value that is replaced does not matter. -/
@[simp] theorem insert_insert (d : Dict α) (k : String) (v w : α) :
    (d.insert k v).insert k w = d.insert k w := by
  refine ext_get? fun x => ?_
  rw [get?_insert, get?_insert, get?_insert]
  split <;> rfl

/-- Values are inserted at different names in any order. -/
theorem insert_comm (d : Dict α) {k k' : String} (h : k ≠ k') (v w : α) :
    (d.insert k' w).insert k v = (d.insert k v).insert k' w := by
  refine ext_get? fun x => ?_
  rw [get?_insert, get?_insert, get?_insert, get?_insert]
  by_cases hx : k = x
  · rw [if_pos hx, if_pos hx, if_neg fun hx' => h (hx.trans hx'.symm)]
  · rw [if_neg hx, if_neg hx]

end Dict

end Stencil
