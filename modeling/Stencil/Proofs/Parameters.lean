import Stencil.Proofs.Run

/-!
The parameters of a call. `Macro.Binds` says which maps come up as the parameters of a macro while a
call of it is carried out: the positional arguments, these with some of the defaults filled in, and
these with the keyword arguments. `binds_of_bindParams` says that the body of a macro runs with such
a map, and `Macro.Binds.isSome_iff` that such a map has exactly the names of the parameters, whether
they have been given a value or not.
-/

namespace Stencil

/-- The map comes up as the parameters of the macro in a call that closes over the scope. -/
inductive Macro.Binds (m : Macro) (scope : Scope) : Dict Value → Prop
  /-- The parameters have their positional arguments. -/
  | arguments (args : List Value) : Binds m scope (.ofList (positional m.params args))
  /-- A parameter has got its default, which has been evaluated with the parameters so far. -/
  | default {d : Dict Value} {p : Param} {e : Expr} {room : Nat} {s t : Renderer} {v : Value} :
      Binds m scope d → p ∈ m.params → p.default = some e →
      eval (invoke room) (d :: scope) e s = .ok v t → Binds m scope (d.insert p.name v)
  /-- The parameters have got their keyword arguments. -/
  | keywords {d : Dict Value} (kwargs : Dict Value) : Binds m scope d →
      Binds m scope (applyKeywords kwargs m.params d)

/-! ### Calls bind parameters -/

section Calls

variable {m : Macro} {scope : Scope} {room : Nat} {s t : Renderer}

lemma binds_of_fillDefaults {ps : List Param} {d d' : Dict Value} (hd : m.Binds scope d)
    (hps : ∀ p ∈ ps, p ∈ m.params) (h : fillDefaults (invoke room) scope ps d s = .ok d' t) :
    m.Binds scope d' := by
  induction ps generalizing d s with
  | nil =>
    cases h
    exact hd
  | cons p rest ih =>
    rw [List.forall_mem_cons] at hps
    rw [fillDefaults] at h
    cases he : p.default with
    | none =>
      rw [he] at h
      exact ih hd hps.2 h
    | some e =>
      simp only [he] at h
      by_cases hundefined : ((d.get? p.name).getD .undefined).isUndefined
      · rw [if_pos hundefined] at h
        cases hv : eval (invoke room) (d :: scope) e s with
        | ok v u =>
          rw [Run.bind_of_ok hv] at h
          exact ih (hd.default hps.1 he hv) hps.2 h
        | error err u =>
          rw [Run.bind_of_error hv] at h
          cases h
      · rw [if_neg hundefined] at h
        exact ih hd hps.2 h

/-- The map with which the body of a macro runs comes up in a call of it. -/
lemma binds_of_bindParams {args : List Value} {d : Dict Value}
    (h : bindParams (invoke room) m scope args s = .ok d t) : m.Binds scope d := by
  cases hfill :
      fillDefaults (invoke room) scope m.params (.ofList (positional m.params args)) s with
  | ok vars u =>
    rw [bindParams, Run.bind_of_ok hfill, Run.get_bind] at h
    cases h
    exact .keywords _ (binds_of_fillDefaults (.arguments args) (fun _ hp => hp) hfill)
  | error err u =>
    rw [bindParams, Run.bind_of_error hfill] at h
    cases h

end Calls

/-! ### The names of the parameters -/

lemma Scope.get?_cons (d : Dict Value) (scope : Scope) (name : String) :
    Scope.get? (d :: scope) name = (d.get? name).or (scope.get? name) := by
  rw [get?, get?, List.findSome?_cons]
  cases d.get? name <;> rfl

namespace Dict

variable {α : Type} {d : Dict α} {k n : String} {v : α}

lemma isSome_find? {l : List (String × α)} : (find? l k).isSome ↔ k ∈ l.map (·.1) := by
  induction l with
  | nil => simp [find?]
  | cons e rest ih =>
    rw [find?, List.map_cons, List.mem_cons]
    split
    next h => simp [h]
    next h => rw [ih, or_iff_right (Ne.symm h)]

lemma isSome_get?_insert : ((d.insert k v).get? n).isSome ↔ n = k ∨ (d.get? n).isSome := by
  rw [get?_insert]
  split
  next h => simp [h]
  next h => simp [Ne.symm h]

lemma isSome_get?_foldl_insert (l : List (String × α)) :
    ((l.foldl (fun acc p => acc.insert p.1 p.2) d).get? n).isSome ↔
      n ∈ l.map (·.1) ∨ (d.get? n).isSome := by
  induction l generalizing d with
  | nil => simp
  | cons p rest ih =>
    rw [List.foldl_cons, ih, isSome_get?_insert, List.map_cons, List.mem_cons, or_left_comm,
      or_assoc]

lemma isSome_get?_ofList (l : List (String × α)) :
    ((ofList l).get? n).isSome ↔ n ∈ l.map (·.1) := by
  rw [ofList, isSome_get?_foldl_insert]
  simp

end Dict

lemma map_fst_positional (ps : List Param) (args : List Value) :
    (positional ps args).map (·.1) = ps.map (·.name) := by
  induction ps generalizing args with
  | nil => rfl
  | cons p rest ih => cases args <;> rw [positional, List.map_cons, List.map_cons, ih]

lemma isSome_get?_applyKeywords {kwargs d : Dict Value} {ps : List Param} {n : String}
    (hps : ∀ p ∈ ps, (d.get? p.name).isSome) :
    ((applyKeywords kwargs ps d).get? n).isSome ↔ (d.get? n).isSome := by
  induction ps generalizing d with
  | nil => rfl
  | cons p rest ih =>
    rw [List.forall_mem_cons] at hps
    rw [applyKeywords]
    split
    next v _ =>
      split
      · exact ih hps.2
      · rw [ih fun q hq => Dict.isSome_get?_insert.2 (.inr (hps.2 q hq)), Dict.isSome_get?_insert,
          or_iff_right_iff_imp]
        rintro rfl
        exact hps.1
    · exact ih hps.2

/-- The names in the map are those of the parameters. -/
lemma Macro.Binds.isSome_iff {m : Macro} {scope : Scope} {d : Dict Value} (h : m.Binds scope d)
    (n : String) : (d.get? n).isSome ↔ n ∈ m.params.map (·.name) := by
  induction h generalizing n with
  | arguments args => rw [Dict.isSome_get?_ofList, map_fst_positional]
  | @default d p e _ _ _ _ _ hp _ _ ih =>
    rw [Dict.isSome_get?_insert, ih, or_iff_right_iff_imp]
    rintro rfl
    exact List.mem_map.2 ⟨p, hp, rfl⟩
  | keywords kwargs _ ih =>
    rw [isSome_get?_applyKeywords fun p hp => (ih p.name).2 (List.mem_map.2 ⟨p, hp, rfl⟩), ih]

end Stencil
