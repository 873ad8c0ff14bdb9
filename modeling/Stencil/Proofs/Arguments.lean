import Stencil.Proofs.Balance
import Stencil.Proofs.Parameters
import Stencil.Proofs.Reach

/-!
What the parameters of a macro stand for in a call. `Macro.Settles` gives the parameters their
values from the first to the last: a defined positional argument, else the value of the default,
else nothing defined. Each default is evaluated where the parameters before it have their values and
the others their positional arguments (`Macro.settling`). Then the keyword arguments take precedence
(`Macro.settled`), and the body runs with what comes of it.

`fillDefaults` does one step of `Macro.Settles` for each parameter (`fillDefaults_step`). The
keyword arguments that are read afterwards are those of the same call, since an expression leaves
them as it has found them, whatever it calls (`eval_balanced`). Together these are
`arguments_bound`.
-/

namespace Stencil

/-! ### Maps of lists of entries -/

namespace Dict

variable {α : Type} {l : List (String × α)} {k : String} {v : α}

/-- Where no name comes twice the order of insertion does not matter. -/
lemma get?_foldl_insert_of_nodup (hl : (l.map (·.1)).Nodup) (d : Dict α) (x : String) :
    (l.foldl (fun acc p => acc.insert p.1 p.2) d).get? x = (find? l x).or (d.get? x) := by
  induction l generalizing d with
  | nil => simp [find?]
  | cons p rest ih =>
    obtain ⟨k, v⟩ := p
    rw [List.map_cons, List.nodup_cons] at hl
    rw [List.foldl_cons, ih hl.2, get?_insert, find?]
    by_cases hx : k = x
    · subst hx
      have hnone : find? rest k = none :=
        Option.not_isSome_iff_eq_none.1 (mt isSome_find?.1 hl.1)
      simp [hnone]
    · simp [hx]

lemma get?_ofList_of_nodup (hl : (l.map (·.1)).Nodup) (x : String) :
    (ofList l).get? x = find? l x := by
  rw [ofList, get?_foldl_insert_of_nodup hl, get?_empty, Option.or_none]

/-- The entry at a place is found if no name comes twice. -/
lemma find?_of_getElem? (hl : (l.map (·.1)).Nodup) {i : Nat} (h : l[i]? = some (k, v)) :
    find? l k = some v := by
  induction l generalizing i with
  | nil => cases h
  | cons p rest ih =>
    obtain ⟨k', v'⟩ := p
    rw [List.map_cons, List.nodup_cons] at hl
    cases i with
    | zero =>
      cases h
      rw [find?, if_pos rfl]
    | succ i =>
      have hmem : k ∈ rest.map (·.1) := List.mem_map.2 ⟨_, List.mem_of_getElem? h, rfl⟩
      rw [find?, if_neg (ne_of_mem_of_not_mem hmem hl.1).symm]
      exact ih hl.2 h

end Dict

/-! ### The values of parameters -/

/-- The positional argument at a place. What is missing is undefined. -/
def argument (args : List Value) (i : Nat) : Value :=
  (args[i]?).getD .undefined

/-- A value, unless there is a defined one to take precedence. -/
def Value.orKeyword (v : Value) : Option Value → Value
  | some w => if w.isUndefined then v else w
  | none => v

namespace Macro

variable (m : Macro)

/-- The parameters with the given values, in their order. -/
def assign (vs : List Value) : Dict Value :=
  .ofList ((m.params.map (·.name)).zip vs)

/-- The parameters while their values are determined: the first ones have theirs, the others have
their positional arguments. -/
def settling (args vs : List Value) : Dict Value :=
  m.assign ((List.range m.params.length).map fun i => (vs[i]?).getD (argument args i))

/-- The parameters with their values, over which keyword arguments take precedence. -/
def settled (kwargs : Dict Value) (vs : List Value) : Dict Value :=
  m.assign ((m.params.zip vs).map fun p => p.2.orKeyword (kwargs.get? p.1.name))

/-- The first parameters get their values, from left to right. -/
inductive Settles (invoker : Invoker) (scope : Scope) (args : List Value) :
    List Value → Renderer → Renderer → Prop
  | start (s : Renderer) : Settles invoker scope args [] s s
  /-- A defined positional argument is taken. -/
  | given {vs : List Value} {s t : Renderer} {p : Param} : Settles invoker scope args vs s t →
      m.params[vs.length]? = some p → (argument args vs.length).isUndefined = false →
      Settles invoker scope args (vs ++ [argument args vs.length]) s t
  /-- Without one the default is evaluated. -/
  | default {vs : List Value} {s t u : Renderer} {p : Param} {e : Expr} {v : Value} :
      Settles invoker scope args vs s t → m.params[vs.length]? = some p →
      (argument args vs.length).isUndefined = true → p.default = some e →
      eval invoker (m.settling args vs :: scope) e t = .ok v u →
      Settles invoker scope args (vs ++ [v]) s u
  /-- Without a default either the parameter is undefined. -/
  | missing {vs : List Value} {s t : Renderer} {p : Param} : Settles invoker scope args vs s t →
      m.params[vs.length]? = some p → (argument args vs.length).isUndefined = true →
      p.default = none → Settles invoker scope args (vs ++ [.undefined]) s t

/-- What an invocation comes to, once the context has the keyword arguments. -/
inductive Called (invoker : Invoker) (scope : Scope) (args : List Value) (kwargs : Dict Value)
    (s : Renderer) : Except RenderError Value → Prop
  /-- A default fails. -/
  | fails {vs : List Value} {t : Renderer} {p : Param} {e : Expr} {err : RenderError} :
      m.Settles invoker scope args vs s t → m.params[vs.length]? = some p →
      (argument args vs.length).isUndefined = true → p.default = some e →
      (eval invoker (m.settling args vs :: scope) e).outcome t = .error err →
      Called invoker scope args kwargs s (.error err)
  /-- All parameters have their values, and the body runs with them. The context is the one that the
  defaults have left, but no name of a parameter has an entry in it. -/
  | runs {vs : List Value} {t : Renderer} : m.Settles invoker scope args vs s t →
      vs.length = m.params.length →
      (∀ name, (t.without m.params).context.get? name =
        if name ∈ m.params.map (·.name) then none else t.context.get? name) →
      Called invoker scope args kwargs s
        (((exec invoker (m.settled kwargs vs :: scope) m.body).outcome (t.without m.params)).map
          .string)

end Macro

/-! ### Looking up parameters -/

namespace Macro

variable {m : Macro} {args vs : List Value} {kwargs d : Dict Value} {i : Nat} {p : Param}
  {v : Value}

/-- The values that have been determined, followed by positional arguments. -/
lemma getElem?_values (hi : i < m.params.length) :
    ((List.range m.params.length).map fun i => (vs[i]?).getD (argument args i))[i]? =
      some ((vs[i]?).getD (argument args i)) := by
  simp [hi]

lemma isSome_get?_assign (hlength : vs.length = m.params.length) (n : String) :
    ((m.assign vs).get? n).isSome ↔ n ∈ m.params.map (·.name) := by
  rw [assign, Dict.isSome_get?_ofList, List.map_fst_zip (by simp [hlength])]

variable (hm : (m.params.map (·.name)).Nodup)

include hm

lemma get?_assign (hlength : vs.length = m.params.length) (hp : m.params[i]? = some p)
    (hv : vs[i]? = some v) : (m.assign vs).get? p.name = some v := by
  have hfirst : ((m.params.map (·.name)).zip vs).map (·.1) = m.params.map (·.name) :=
    List.map_fst_zip (by simp [hlength])
  have hzip : ((m.params.map (·.name)).zip vs)[i]? = some (p.name, v) := by
    rw [List.getElem?_zip_eq_some, List.getElem?_map, hp]
    exact ⟨rfl, hv⟩
  rw [← hfirst] at hm
  rw [assign, Dict.get?_ofList_of_nodup hm, Dict.find?_of_getElem? hm hzip]

/-- The parameters have given values exactly in one map. -/
lemma eq_assign (hlength : vs.length = m.params.length)
    (hnames : ∀ n, (d.get? n).isSome ↔ n ∈ m.params.map (·.name))
    (hget : ∀ (i : Nat) (p : Param) (v : Value), m.params[i]? = some p → vs[i]? = some v →
      d.get? p.name = some v) : d = m.assign vs := by
  refine Dict.ext_get? fun n => ?_
  by_cases hn : n ∈ m.params.map (·.name)
  · obtain ⟨p, hp, rfl⟩ := List.mem_map.1 hn
    obtain ⟨i, hi⟩ := List.mem_iff_getElem?.1 hp
    obtain ⟨v, hv⟩ : ∃ v, vs[i]? = some v := by
      refine ⟨_, List.getElem?_eq_getElem ?_⟩
      rw [hlength]
      exact (List.getElem?_eq_some_iff.1 hi).1
    rw [hget i p v hi hv, get?_assign hm hlength hi hv]
  · rw [Option.not_isSome_iff_eq_none.1 (mt (hnames n).1 hn),
      Option.not_isSome_iff_eq_none.1 (mt (isSome_get?_assign hlength n).1 hn)]

lemma get?_settling (hp : m.params[i]? = some p) :
    (m.settling args vs).get? p.name = some ((vs[i]?).getD (argument args i)) :=
  get?_assign hm (by simp) hp (getElem?_values (List.getElem?_eq_some_iff.1 hp).1)

/-- At first the parameters have their positional arguments. -/
lemma settling_nil : m.settling args [] = .ofList (positional m.params args) := by
  have hplace (ps : List Param) : ∀ (args : List Value) (i : Nat), (positional ps args)[i]? =
      ps[i]?.map fun p => (p.name, argument args i) := by
    induction ps with
    | nil => exact fun _ _ => rfl
    | cons p rest ih =>
      intro args i
      cases args <;> cases i <;> simp [positional, argument, ih]
  have hnodup : ((positional m.params args).map (·.1)).Nodup := by rwa [map_fst_positional]
  refine (eq_assign hm (by simp) (fun n => ?_) fun i p v hp hv => ?_).symm
  · rw [Dict.isSome_get?_ofList, map_fst_positional]
  · rw [getElem?_values (List.getElem?_eq_some_iff.1 hp).1] at hv
    cases hv
    rw [Dict.get?_ofList_of_nodup hnodup]
    refine Dict.find?_of_getElem? hnodup (i := i) ?_
    rw [hplace, hp]
    rfl

/-- The next parameter gets its value. -/
lemma settling_insert (hp : m.params[vs.length]? = some p) (v : Value) :
    (m.settling args vs).insert p.name v = m.settling args (vs ++ [v]) := by
  refine eq_assign hm (by simp) (fun n => ?_) fun j q w hq hw => ?_
  · rw [Dict.isSome_get?_insert, settling, isSome_get?_assign (by simp), or_iff_right_iff_imp]
    rintro rfl
    exact List.mem_map.2 ⟨p, List.mem_of_getElem? hp, rfl⟩
  · rw [getElem?_values (List.getElem?_eq_some_iff.1 hq).1] at hw
    cases hw
    rw [Dict.get?_insert]
    by_cases hj : j = vs.length
    · subst hj
      rw [hp] at hq
      cases hq
      simp
    · have hne : p.name ≠ q.name := fun heq => hj <| by
        have hi := (List.getElem?_eq_some_iff.1 hq).1
        refine (List.getElem?_inj (by simpa using hi) hm).1 ?_
        rw [List.getElem?_map, List.getElem?_map, hp, hq, Option.map_some, Option.map_some, heq]
      rw [if_neg hne, get?_settling hm hq]
      congr 1
      rcases Nat.lt_or_gt_of_ne hj with h | h
      · rw [List.getElem?_append_left h]
      · rw [List.getElem?_eq_none (by omega), List.getElem?_eq_none (by simp; omega)]

omit hm in
/-- Or it keeps its positional argument. -/
lemma settling_argument (args vs : List Value) :
    m.settling args (vs ++ [argument args vs.length]) = m.settling args vs := by
  rw [settling, settling]
  congr 2
  funext i
  rcases Nat.lt_trichotomy i vs.length with h | h | h
  · rw [List.getElem?_append_left h]
  · subst h
    simp
  · rw [List.getElem?_eq_none (l := vs) (by omega), List.getElem?_eq_none (by simp; omega)]

end Macro

/-! ### Keyword arguments -/

section Keywords

variable {kwargs d : Dict Value} {ps : List Param}

/-- A parameter has its keyword argument if there is a defined one, and else keeps its value. -/
lemma get?_applyKeywords {n : String} {v : Value} (hd : d.get? n = some v) :
    (applyKeywords kwargs ps d).get? n =
      some (if n ∈ ps.map (·.name) then v.orKeyword (kwargs.get? n) else v) := by
  induction ps generalizing d v with
  | nil => exact hd
  | cons p rest ih =>
    rw [applyKeywords]
    by_cases hn : p.name = n
    · subst hn
      cases hk : kwargs.get? p.name with
      | none => simp [ih hd, hk, Value.orKeyword]
      | some w =>
        by_cases hw : w.isUndefined
        · simp [hw, ih hd, hk, Value.orKeyword]
        · simp [hw, ih (Dict.get?_insert_self d p.name w), hk, Value.orKeyword]
    · have hrest : n ∈ (p :: rest).map (·.name) ↔ n ∈ rest.map (·.name) := by
        simp [Ne.symm hn]
      simp only [hrest]
      split
      next w _ =>
        by_cases hw : w.isUndefined
        · rw [if_pos hw, ih hd]
        · rw [if_neg hw, ih (by rwa [Dict.get?_insert, if_neg hn])]
      next => exact ih hd

/-- The keyword arguments take precedence over the values that have been determined. -/
lemma Macro.applyKeywords_settling {m : Macro} (hm : (m.params.map (·.name)).Nodup)
    {args vs : List Value} (hlength : vs.length = m.params.length) :
    applyKeywords kwargs m.params (m.settling args vs) = m.settled kwargs vs := by
  have hfound (p : Param) (hp : p ∈ m.params) : ((m.settling args vs).get? p.name).isSome :=
    (isSome_get?_assign (by simp) _).2 (List.mem_map.2 ⟨p, hp, rfl⟩)
  refine eq_assign hm (by simp [hlength]) (fun n => ?_) fun i p v hp hv => ?_
  · rw [isSome_get?_applyKeywords hfound, settling, isSome_get?_assign (by simp)]
  · obtain ⟨w, hw⟩ : ∃ w, vs[i]? = some w :=
      ⟨_, List.getElem?_eq_getElem (hlength ▸ (List.getElem?_eq_some_iff.1 hp).1)⟩
    have hzip : (m.params.zip vs)[i]? = some (p, w) := List.getElem?_zip_eq_some.2 ⟨hp, hw⟩
    rw [List.getElem?_map, hzip] at hv
    cases hv
    have hmem : p.name ∈ m.params.map (·.name) := List.mem_map.2 ⟨p, List.mem_of_getElem? hp, rfl⟩
    rw [get?_applyKeywords (get?_settling hm hp), if_pos hmem, hw]
    rfl

end Keywords

/-! ### Defaults -/

section Defaults

variable {m : Macro} {invoker : Invoker} {scope : Scope} {args vs : List Value} {s t : Renderer}

lemma Macro.Settles.length_le (h : m.Settles invoker scope args vs s t) :
    vs.length ≤ m.params.length := by
  cases h with
  | start => exact Nat.zero_le _
  | given _ hp | default _ hp | missing _ hp =>
    rw [List.length_append]
    exact (List.getElem?_eq_some_iff.1 hp).1

variable (hm : (m.params.map (·.name)).Nodup)

include hm

/-- Filling in defaults gives the next parameter its value. -/
lemma fillDefaults_step {p : Param} {ps : List Param} (hp : m.params[vs.length]? = some p) :
    fillDefaults invoker scope (p :: ps) (m.settling args vs) =
      if (argument args vs.length).isUndefined then
        match p.default with
        | some e => do
          let v ← eval invoker (m.settling args vs :: scope) e
          fillDefaults invoker scope ps (m.settling args (vs ++ [v]))
        | none => fillDefaults invoker scope ps (m.settling args (vs ++ [.undefined]))
      else fillDefaults invoker scope ps (m.settling args (vs ++ [argument args vs.length])) := by
  have hget : ((m.settling args vs).get? p.name).getD .undefined = argument args vs.length := by
    rw [Macro.get?_settling hm hp, List.getElem?_eq_none (Nat.le_refl _)]
    rfl
  rw [fillDefaults, hget, Macro.settling_argument]
  cases hd : p.default with
  | none =>
    dsimp only
    split
    next h =>
      cases ha : argument args vs.length <;> rw [ha] at h <;> cases h
      rw [← ha, Macro.settling_argument]
    next => rfl
  | some e =>
    dsimp only
    simp only [Macro.settling_insert hm hp]

/-- Filling in defaults either gives all parameters their values or fails with one of them. -/
lemma settles_of_fillDefaults (hs : m.Settles invoker scope args vs s t) {ps : List Param}
    (hps : m.params.drop vs.length = ps) :
    (∃ ws u, fillDefaults invoker scope ps (m.settling args vs) t = .ok (m.settling args ws) u ∧
      m.Settles invoker scope args ws s u ∧ ws.length = m.params.length) ∨
    ∃ ws u p e err w, fillDefaults invoker scope ps (m.settling args vs) t = .error err w ∧
      m.Settles invoker scope args ws s u ∧ m.params[ws.length]? = some p ∧
      (argument args ws.length).isUndefined = true ∧ p.default = some e ∧
      eval invoker (m.settling args ws :: scope) e u = .error err w := by
  induction ps generalizing vs t with
  | nil =>
    refine .inl ⟨vs, t, rfl, hs, Nat.le_antisymm hs.length_le ?_⟩
    exact List.drop_eq_nil_iff.1 hps
  | cons p rest ih =>
    have hp : m.params[vs.length]? = some p := by
      rw [← List.head?_drop, hps]
      rfl
    have hrest (v : Value) : m.params.drop (vs ++ [v]).length = rest := by
      rw [List.length_append, ← List.drop_drop, hps]
      rfl
    rw [fillDefaults_step hm hp]
    by_cases hundefined : (argument args vs.length).isUndefined
    · rw [if_pos hundefined]
      cases hd : p.default with
      | none => exact ih (.missing hs hp hundefined hd) (hrest _)
      | some e =>
        dsimp only
        cases hv : eval invoker (m.settling args vs :: scope) e t with
        | ok v u =>
          rw [Run.bind_of_ok hv]
          exact ih (.default hs hp hundefined hd hv) (hrest _)
        | error err w =>
          rw [Run.bind_of_error hv]
          exact .inr ⟨vs, t, p, e, err, w, rfl, hs, hp, hundefined, hd, hv⟩
    · rw [if_neg hundefined]
      exact ih (.given hs hp (by simpa using hundefined)) (hrest _)

end Defaults

/-- The keyword arguments of the call under way are untouched by its defaults. -/
lemma Macro.Settles.kwargs {m : Macro} {room : Nat} {scope : Scope} {args vs : List Value}
    {s t : Renderer} (h : m.Settles (invoke room) scope args vs s t) :
    t.context.get? kwargsName = s.context.get? kwargsName := by
  induction h with
  | start => rfl
  | given _ _ _ ih | missing _ _ _ _ ih => exact ih
  | @default vs _ t u _ e _ _ _ _ _ hv ih =>
    have hbalanced := (eval_balanced (invoke_holds room) (m.settling args vs :: scope) e t).kwargs
    rw [Run.final_of_ok hv] at hbalanced
    exact hbalanced.trans ih

/-! ### Calls -/

lemma outcome_callValue_closure {room : Nat} (id : Nat) (m : Macro) (scope : Scope)
    (args : List Value) (kwargs : Option (Dict Value)) (what : String) {s : Renderer}
    (hs : s.depth < maxCallDepth) :
    (callValue (invoke (room + 1)) (.closure id m scope) args kwargs what).outcome s =
      ((invokeMacro (invoke room) m scope args).outcome (s.calling kwargs)).map .string := by
  have hcall := Run.outcome_bind_pure Value.string (Run.nested what (Run.withEntry kwargsName
    (kwargs.map .map) (invoke (room + 1) (.call m scope args)))) s
  rw [Run.outcome_nested_of_lt hs, Run.outcome_withEntry] at hcall
  exact hcall

lemma outcome_callValue_of_le {invoker : Invoker} (id : Nat) (m : Macro) (scope : Scope)
    (args : List Value) (kwargs : Option (Dict Value)) (what : String) {s : Renderer}
    (hs : maxCallDepth ≤ s.depth) :
    (callValue invoker (.closure id m scope) args kwargs what).outcome s =
      .error (.callDepth what) := by
  have hcall := Run.outcome_bind_pure Value.string (Run.nested what (Run.withEntry kwargsName
    (kwargs.map .map) (invoker (.call m scope args)))) s
  rw [Run.outcome, Run.outcome, Run.nested, if_pos hs] at hcall
  exact hcall

/-- **What a call binds.** The parameters of a macro get a defined positional argument, or else the
value of their default, evaluated from left to right where the parameters before them have their
values and the others their positional arguments; defined keyword arguments of the same call take
precedence. With these the body runs, in a context without entries of their names, unless a default
has failed. Only where too many calls are under way the macro is not invoked at all. -/
theorem arguments_bound {m : Macro} (hm : (m.params.map (·.name)).Nodup) (id : Nat) (scope : Scope)
    (args : List Value) (kwargs : Option (Dict Value)) (what : String) (room : Nat) (s : Renderer) :
    let result := (callValue (invoke (room + 1)) (.closure id m scope) args kwargs what).outcome s
    (s.depth < maxCallDepth →
      m.Called (invoke room) scope args (kwargs.getD .empty) (s.calling kwargs) result) ∧
    (maxCallDepth ≤ s.depth → result = .error (.callDepth what)) := by
  intro result
  refine ⟨fun hs => ?_, fun hs => outcome_callValue_of_le id m scope args kwargs what hs⟩
  show m.Called _ _ _ _ _ ((callValue _ _ _ _ _).outcome s)
  rw [outcome_callValue_closure id m scope args kwargs what hs]
  have hstart : m.Settles (invoke room) scope args [] (s.calling kwargs) (s.calling kwargs) :=
    .start _
  have hfill := settles_of_fillDefaults hm hstart (List.drop_zero (l := m.params))
  rw [Macro.settling_nil hm] at hfill
  obtain ⟨vs, t, hvars, hsettles, hlength⟩ |
    ⟨vs, t, p, e, err, u, hvars, hsettles, hp, ha, hd, he⟩ := hfill
  · have hentry : t.context.kwargs = kwargs.getD .empty := by
      have hcalling : (s.calling kwargs).context.get? kwargsName = kwargs.map .map := by
        show (Context.set _ _ _).get? _ = _
        rw [Context.get?_set, if_pos rfl]
      rw [Context.kwargs, hsettles.kwargs, hcalling]
      cases kwargs <;> rfl
    have hbind : bindParams (invoke room) m scope args (s.calling kwargs) =
        .ok (m.settled (kwargs.getD .empty) vs) t := by
      rw [bindParams, Run.bind_of_ok hvars, Run.get_bind, hentry,
        Macro.applyKeywords_settling hm hlength]
      rfl
    have hrun := invokeMacro_of_ok hbind
    rw [Run.outcome, hrun, ← Run.outcome, Run.outcome_ensuring]
    exact .runs hsettles hlength fun name => Context.get?_eraseAll _ _ _
  · have hbind : bindParams (invoke room) m scope args (s.calling kwargs) = .error err u := by
      rw [bindParams, Run.bind_of_error hvars]
    rw [Run.outcome, invokeMacro_of_error hbind]
    exact .fails hsettles hp ha hd (by rw [Run.outcome, he])

/-! ### An example -/

namespace Shelf

/-- A macro that puts out its parameter: `{% macro g(n) %}{{ n }}{% endmacro %}`. -/
def shown : Macro :=
  ⟨"g", [⟨"n", none⟩], [.output (.param "n")], "page"⟩

/-- A macro with a default that calls another one by keyword:
`{% macro row(a, b=g(n=a), c="C") %}{{ a }}{{ b }}{{ c }}{% endmacro %}`. -/
def row : Macro :=
  ⟨"row", [⟨"a", none⟩, ⟨"b", some (.call (.context "g") [] [("n", .param "a")])⟩,
    ⟨"c", some (.literal (.string "C"))⟩],
    [.output (.param "a"), .output (.param "b"), .output (.param "c")], "page"⟩

/-- A renderer that knows the other macro. -/
def renderer : Renderer :=
  .start (Context.empty.insert "g" (.closure 0 shown [])) 1

/-- `row("x", c="K")`: the default of `b` sees `a`, and its own keyword argument does not take the
place of that of `c`. -/
theorem row_bound : (row.params.map (·.name)).Nodup ∧ renderer.depth < maxCallDepth ∧
    row.Called (invoke 127) [] [.string "x"] (.ofList [("c", .string "K")])
      (renderer.calling (some (.ofList [("c", .string "K")]))) (.ok (.string "xxK")) :=
  ⟨by decide, by decide, (arguments_bound (by decide) 1 [] [.string "x"]
    (some (.ofList [("c", .string "K")])) "row" 127 renderer).1 (by decide)⟩

end Shelf

end Stencil
