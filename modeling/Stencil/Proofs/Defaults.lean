import Stencil.Proofs.Arguments
import Stencil.Proofs.References

/-!
Arguments that are left out. A call that leaves out the last parameters of a macro, the defaults of
which are constants, is the same computation as the call that passes these constants
(`omitted_defaults_supplied`).

What sets the two calls apart is only what the parameters left out are while the others get their
values: undefined in the one, and constants in the other. An expression does not notice if it does
not refer to them (`eval_congr`). So the calls may differ if a default before those left out is
needed and refers to one of them (`supplied_default_noticed`).
-/

namespace Stencil

/-! ### Expressions in two scopes -/

/-- The references include one to the parameter of that name, if there is such a parameter. -/
def ReferTo (rs : List Expr) (name : String) : Prop :=
  .param name ∈ rs ∨ .var name ∈ rs

section Congruence

variable {invoker : Invoker} {scope scope' : Scope}

/-- Scopes that give the same value to all parameters among the references. -/
def Scope.AgreeOn (scope scope' : Scope) (rs : List Expr) : Prop :=
  ∀ name, ReferTo rs name → scope.get? name = scope'.get? name

lemma Scope.AgreeOn.left {rs rs' : List Expr} (h : scope.AgreeOn scope' (rs ++ rs')) :
    scope.AgreeOn scope' rs :=
  fun name hname => h name (hname.imp (List.mem_append_left _) (List.mem_append_left _))

lemma Scope.AgreeOn.right {rs rs' : List Expr} (h : scope.AgreeOn scope' (rs ++ rs')) :
    scope.AgreeOn scope' rs' :=
  fun name hname => h name (hname.imp (List.mem_append_right _) (List.mem_append_right _))

mutual

/-- An expression depends on no more of a scope than what it refers to. -/
lemma eval_congr : ∀ e : Expr, scope.AgreeOn scope' e.references →
    eval invoker scope e = eval invoker scope' e
  | .literal _, _ => rfl
  | .var name, h => by rw [eval, eval, h name (.inr List.mem_cons_self)]
  | .param name, h => by rw [eval, eval, h name (.inl List.mem_cons_self)]
  | .context _, _ => rfl
  | .symbol _, _ => rfl
  | .member target _, h => by rw [eval, eval, eval_congr target h]
  | .index target place, h => by
    rw [eval, eval, eval_congr target h.left, eval_congr place h.right]
  | .list items, h => by rw [eval, eval, evalItems_congr items h]
  | .map entries, h => by rw [eval, eval, evalEntries_congr entries h]
  | .call callee args kwargs, h => by
    rw [eval, eval, eval_congr callee h.left.left, evalItems_congr args h.left.right,
      evalEntries_congr kwargs h.right]

lemma evalItems_congr : ∀ es : List Expr, scope.AgreeOn scope' (Expr.itemReferences es) →
    evalItems invoker scope es = evalItems invoker scope' es
  | [], _ => rfl
  | e :: rest, h => by
    rw [evalItems, evalItems, eval_congr e h.left, evalItems_congr rest h.right]

lemma evalEntries_congr : ∀ es : List (String × Expr),
    scope.AgreeOn scope' (Expr.entryReferences es) →
      evalEntries invoker scope es = evalEntries invoker scope' es
  | [], _ => rfl
  | (_, e) :: rest, h => by
    rw [evalEntries, evalEntries, eval_congr e h.left, evalEntries_congr rest h.right]

end

end Congruence

/-! ### Parameters with constant defaults -/

/-- The default of the parameter is the constant. -/
def Param.DefaultsTo (p : Param) (l : Literal) : Prop :=
  p.default = some (.literal l)

lemma Literal.isUndefined_value (l : Literal) : l.value.isUndefined = false := by
  cases l <;> rfl

section Constants

variable {m : Macro} (hm : (m.params.map (·.name)).Nodup) {invoker : Invoker} {scope : Scope}
  {args vs : List Value}

/-- Once all parameters have their values, the positional arguments do not matter. -/
lemma Macro.settling_of_length (hlength : vs.length = m.params.length) :
    m.settling args vs = m.assign vs := by
  rw [settling]
  congr 1
  refine List.ext_getElem (by simp [hlength]) fun i hi hi' => ?_
  simp [hi']

include hm

/-- Parameters with constant defaults get these, whether the constants are passed or not. -/
lemma fillDefaults_constants {qs : List Param} {ls : List Literal}
    (hqs : List.Forall₂ Param.DefaultsTo qs ls) (hdrop : m.params.drop vs.length = qs)
    (hargs : ∀ i l, ls[i]? = some l →
      argument args (vs.length + i) = .undefined ∨ argument args (vs.length + i) = l.value) :
    fillDefaults invoker scope qs (m.settling args vs) =
      pure (m.settling args (vs ++ ls.map Literal.value)) := by
  induction hqs generalizing vs with
  | nil => rw [List.map_nil, List.append_nil, fillDefaults]
  | @cons q l qs ls hq _ ih =>
    have hp : m.params[vs.length]? = some q := by
      rw [← List.head?_drop, hdrop]
      rfl
    have hnext : m.params.drop (vs ++ [l.value]).length = qs := by
      rw [List.length_append, ← List.drop_drop, hdrop]
      rfl
    have hrest : fillDefaults invoker scope qs (m.settling args (vs ++ [l.value])) =
        pure (m.settling args (vs ++ (l :: ls).map Literal.value)) := by
      rw [List.map_cons, List.append_cons vs l.value (ls.map Literal.value)]
      refine ih hnext fun i l' hl' => ?_
      have hlength : (vs ++ [l.value]).length + i = vs.length + (i + 1) := by
        rw [List.length_append, List.length_singleton]
        omega
      rw [hlength]
      exact hargs (i + 1) l' hl'
    have hfirst := hargs 0 l rfl
    rw [fillDefaults_step hm hp, hq]
    rw [Nat.add_zero] at hfirst
    rcases hfirst with h | h
    · rw [h]
      exact hrest
    · rw [h, if_neg (by simp [l.isUndefined_value])]
      exact hrest

end Constants

/-! ### Leaving out arguments -/

section Omitted

variable {m : Macro} (hm : (m.params.map (·.name)).Nodup) {ps qs : List Param}
  (hparams : m.params = ps ++ qs) {args : List Value} (hargs : args.length = ps.length)
  {ls : List Literal} (hqs : List.Forall₂ Param.DefaultsTo qs ls)

omit hqs in
include hm hparams hargs in
/-- The maps with which a default is evaluated differ in what is left out at most. -/
lemma agreeOn_settling {vs more : List Value} {scope : Scope}
    {rs : List Expr} (hrs : ∀ q ∈ qs, ¬ ReferTo rs q.name) :
    Scope.AgreeOn (m.settling args vs :: scope) (m.settling (args ++ more) vs :: scope) rs := by
  intro name hname
  rw [Scope.get?_cons, Scope.get?_cons]
  by_cases hfound : name ∈ m.params.map (·.name)
  · obtain ⟨p, hp, rfl⟩ := List.mem_map.1 hfound
    obtain ⟨i, hi⟩ := List.mem_iff_getElem?.1 hp
    have hlt : i < ps.length := by
      refine Decidable.byContradiction fun hge => hrs p ?_ hname
      rw [hparams, List.getElem?_append_right (Nat.not_lt.1 hge)] at hi
      exact List.mem_of_getElem? hi
    have hargument : argument (args ++ more) i = argument args i := by
      rw [argument, argument, List.getElem?_append_left (hargs ▸ hlt)]
    rw [Macro.get?_settling hm hi, Macro.get?_settling hm hi, hargument]
  · have hnone (as : List Value) : (m.settling as vs).get? name = none :=
      Option.not_isSome_iff_eq_none.1 (mt (Macro.isSome_get?_assign (by simp) name).1 hfound)
    rw [hnone, hnone]

include hm hparams hargs hqs

/-- Filling in defaults comes to the same whether the constants are passed or not. -/
lemma fillDefaults_supplied {invoker : Invoker} {scope : Scope} {rest : List Param}
    {vs : List Value} (hdrop : ps.drop vs.length = rest) (hlength : vs.length ≤ ps.length)
    (hearlier : ∀ i p e, ps[i]? = some p → (argument args i).isUndefined = true →
      p.default = some e → ∀ q ∈ qs, ¬ ReferTo e.references q.name) :
    fillDefaults invoker scope (rest ++ qs) (m.settling args vs) =
      fillDefaults invoker scope (rest ++ qs)
        (m.settling (args ++ ls.map Literal.value) vs) := by
  induction rest generalizing vs with
  | nil =>
    have hvs : vs.length = ps.length :=
      Nat.le_antisymm hlength (List.drop_eq_nil_iff.1 hdrop)
    have hqdrop : m.params.drop vs.length = qs := by
      rw [hparams, hvs, List.drop_left]
    have hall : (vs ++ ls.map Literal.value).length = m.params.length := by
      rw [hparams, List.length_append, List.length_append, List.length_map, hvs, hqs.length_eq]
    rw [List.nil_append, fillDefaults_constants hm hqs hqdrop fun i l _ => .inl ?_,
      fillDefaults_constants hm hqs hqdrop fun i l hl => .inr ?_,
      Macro.settling_of_length hall, Macro.settling_of_length hall]
    · rw [argument, List.getElem?_append_right (by omega), List.getElem?_map]
      have hi : vs.length + i - args.length = i := by omega
      rw [hi, hl]
      rfl
    · rw [argument, List.getElem?_eq_none (by omega)]
      rfl
  | cons p rest ih =>
    have hp : ps[vs.length]? = some p := by
      rw [← List.head?_drop, hdrop]
      rfl
    have hlt : vs.length < ps.length := (List.getElem?_eq_some_iff.1 hp).1
    have hmp : m.params[vs.length]? = some p := by
      rw [hparams, List.getElem?_append_left hlt, hp]
    have hargument :
        argument (args ++ ls.map Literal.value) vs.length = argument args vs.length := by
      rw [argument, argument, List.getElem?_append_left (hargs ▸ hlt)]
    have hnext (v : Value) : fillDefaults invoker scope (rest ++ qs) (m.settling args (vs ++ [v])) =
        fillDefaults invoker scope (rest ++ qs)
          (m.settling (args ++ ls.map Literal.value) (vs ++ [v])) := by
      refine ih ?_ (by rw [List.length_append]; exact hlt)
      rw [List.length_append, ← List.drop_drop, hdrop]
      rfl
    rw [List.cons_append, fillDefaults_step hm hmp, fillDefaults_step hm hmp, hargument]
    by_cases hundefined : (argument args vs.length).isUndefined
    · rw [if_pos hundefined, if_pos hundefined]
      cases hd : p.default with
      | none => exact hnext _
      | some e =>
        have hagree : Scope.AgreeOn (m.settling args vs :: scope)
            (m.settling (args ++ ls.map Literal.value) vs :: scope) e.references :=
          agreeOn_settling hm hparams hargs (hearlier _ p e hp hundefined hd)
        dsimp only
        rw [eval_congr e hagree]
        simp only [hnext]
    · rw [if_neg hundefined, if_neg hundefined]
      exact hnext _

/-- **Defaults left out behave as if supplied.** A call that leaves out the last parameters, which
have constants as defaults, is the same computation as the call that passes the constants, unless a
parameter before them has to take a default that refers to one of those left out. -/
theorem omitted_defaults_supplied
    (hearlier : ∀ i p e, ps[i]? = some p → (argument args i).isUndefined = true →
      p.default = some e → ∀ q ∈ qs, ¬ ReferTo e.references q.name)
    (room id : Nat) (scope : Scope) (kwargs : Option (Dict Value)) (what : String) :
    callValue (invoke room) (.closure id m scope) args kwargs what =
      callValue (invoke room) (.closure id m scope) (args ++ ls.map Literal.value) kwargs what := by
  have hinvoke : invoke room (.call m scope args) =
      invoke room (.call m scope (args ++ ls.map Literal.value)) := by
    cases room with
    | zero => rfl
    | succ room =>
      have hfill : fillDefaults (invoke room) scope (ps ++ qs) (m.settling args []) =
          fillDefaults (invoke room) scope (ps ++ qs)
            (m.settling (args ++ ls.map Literal.value) []) :=
        fillDefaults_supplied hm hparams hargs hqs List.drop_zero (Nat.zero_le _) hearlier
      rw [← hparams, Macro.settling_nil hm, Macro.settling_nil hm] at hfill
      show invokeMacro _ m scope args = invokeMacro _ m scope (args ++ ls.map Literal.value)
      rw [invokeMacro, invokeMacro, bindParams, bindParams, hfill]
  simp only [callValue, hinvoke]

end Omitted

open Stencil.Shelf in
/-- `row("x", missing)` and `row("x", missing, "C")`: the default of `b` has to be taken, and does
not refer to `c`. -/
theorem row_omits : (row.params.map (·.name)).Nodup ∧
    (∀ i p e, (row.params.take 2)[i]? = some p →
      (argument [.string "x", .undefined] i).isUndefined = true → p.default = some e →
      ∀ q ∈ row.params.drop 2, ¬ ReferTo e.references q.name) ∧
    (callValue (invoke maxCallDepth) (.closure 1 row []) [.string "x", .undefined] none
      "row").outcome renderer = .ok (.string "xxC") ∧
    callValue (invoke maxCallDepth) (.closure 1 row []) [.string "x", .undefined] none "row" =
      callValue (invoke maxCallDepth) (.closure 1 row []) [.string "x", .undefined, .string "C"]
        none "row" := by
  have hearlier : ∀ i p e, (row.params.take 2)[i]? = some p →
      (argument [.string "x", .undefined] i).isUndefined = true → p.default = some e →
      ∀ q ∈ row.params.drop 2, ¬ ReferTo e.references q.name := by
    intro i p e hp _ hd q hq
    have hqc : q.name = "c" := by
      simp only [row, List.drop_succ_cons, List.drop_zero, List.mem_singleton] at hq
      rw [hq]
    rw [hqc]
    match i, hp with
    | 0, hp =>
      cases hp
      cases hd
    | 1, hp =>
      cases hp
      cases hd
      simp [ReferTo, Expr.references, Expr.itemReferences, Expr.entryReferences]
  exact ⟨by decide, hearlier, rfl, omitted_defaults_supplied (by decide)
    (List.take_append_drop 2 row.params).symm rfl (.cons rfl .nil) hearlier maxCallDepth 1 [] none
    "row"⟩

namespace Shelf

/-- A macro whose first default refers to the second parameter:
`{% macro m(a=b, b="x") %}[{{ a }}]{% endmacro %}`. -/
def peek : Macro :=
  ⟨"m", [⟨"a", some (.param "b")⟩, ⟨"b", some (.literal (.string "x"))⟩],
    [.text "[", .output (.param "a"), .text "]"], "page"⟩

/-- `m(missing)` and `m(missing, "x")`: the default of the first parameter is taken in both calls,
and sees the second one only if that has been passed. -/
theorem supplied_default_noticed :
    (peek.params.map (·.name)).Nodup ∧
    List.Forall₂ Param.DefaultsTo (peek.params.drop 1) [.string "x"] ∧
    (callValue (invoke maxCallDepth) (.closure 0 peek []) [.undefined] none "m").outcome
      (.start .empty 1) = .ok (.string "[]") ∧
    (callValue (invoke maxCallDepth) (.closure 0 peek []) [.undefined, .string "x"] none
      "m").outcome (.start .empty 1) = .ok (.string "[x]") :=
  ⟨by decide, .cons rfl .nil, rfl, rfl⟩

end Shelf

end Stencil
