import Stencil.Proofs.Run

/-!
Snapshots of the context. `Context.Within` says that all entries of a context are entries of
another one, and `Context.Agrees` that two contexts have the same value wherever both have one.

* `within_restore_iff`: a restored snapshot is there with all its entries exactly if it was at least
  as large as the context it was merged into, or agreed with it.
* `restore_of_within`: a context from which entries have only been removed becomes the snapshot
  again.
* `invocation_restores_iff`: the same for the context around the invocation of a macro. A body that
  redefines a name of its caller and adds more names than there were parameters to remove leaves
  the redefinition behind (`redefinition_outlives_call`).
-/

namespace Stencil

namespace Context

/-- The entries of the first context are entries of the second. -/
def Within (c d : Context) : Prop :=
  ∀ k v, c.get? k = some v → d.get? k = some v

/-- The contexts have the same value where both have one. -/
def Agrees (c d : Context) : Prop :=
  ∀ k v w, c.get? k = some v → d.get? k = some w → v = w

/-- A restored snapshot has all its entries exactly if it wins by its size or has nothing to win. -/
lemma within_restore_iff (c snapshot : Context) :
    snapshot.Within (c.restore snapshot) ↔ c.size ≤ snapshot.size ∨ c.Agrees snapshot := by
  constructor
  · intro h
    by_cases hle : c.size ≤ snapshot.size
    · exact .inl hle
    · refine .inr fun k v w hv hw => ?_
      have hk := h k w hw
      rw [get?_restore_of_lt (Nat.not_le.1 hle), hv] at hk
      exact Option.some.inj hk
  · rintro (hle | hag) k w hw
    · rw [get?_restore_of_le hle, hw, Option.some_or]
    · by_cases hle : c.size ≤ snapshot.size
      · rw [get?_restore_of_le hle, hw, Option.some_or]
      · rw [get?_restore_of_lt (Nat.not_le.1 hle)]
        cases hv : c.get? k with
        | none => exact hw
        | some v => rw [Option.some_or, hag k v w hv hw]

/-- What the snapshot does not have stays as it is. -/
lemma get?_restore_of_none {c snapshot : Context} {k : String} (h : snapshot.get? k = none) :
    (c.restore snapshot).get? k = c.get? k := by
  by_cases hle : c.size ≤ snapshot.size
  · rw [get?_restore_of_le hle, h, Option.none_or]
  · rw [get?_restore_of_lt (Nat.not_le.1 hle), h, Option.or_none]

/-- A restored snapshot has all its names. -/
lemma isSome_get?_restore {c snapshot : Context} {k : String} (h : (snapshot.get? k).isSome) :
    ((c.restore snapshot).get? k).isSome := by
  by_cases hle : c.size ≤ snapshot.size
  · rw [get?_restore_of_le hle, Option.isSome_or, h, Bool.true_or]
  · rw [get?_restore_of_lt (Nat.not_le.1 hle), Option.isSome_or, h, Bool.or_true]

/-- A context from which entries have only been removed becomes the snapshot again. -/
lemma restore_of_within {c snapshot : Context} (h : c.Within snapshot) :
    c.restore snapshot = snapshot := by
  have hag : c.Agrees snapshot := fun k v w hv hw => Option.some.inj ((h k v hv).symm.trans hw)
  refine ext_get? fun k => ?_
  cases hk : snapshot.get? k with
  | some w => exact (within_restore_iff c snapshot).2 (.inr hag) k w hk
  | none =>
    rw [get?_restore_of_none hk]
    cases hc : c.get? k with
    | none => rfl
    | some v => exact absurd (h k v hc) (by simp [hk])

end Context

/-! ### Invocations of macros -/

section Invocation

variable {invoker : Invoker} {m : Macro} {scope : Scope} {args : List Value} {s t : Renderer}

/-- A default that fails ends the invocation before the context has been touched. -/
lemma invokeMacro_of_error {e : RenderError} (h : bindParams invoker m scope args s = .error e t) :
    invokeMacro invoker m scope args s = .error e t := by
  rw [invokeMacro, Run.get_bind, Run.bind_of_error h]

/-- Once the parameters have their values, an invocation is its body, run without the names of the
parameters and then merged with the snapshot. -/
lemma invokeMacro_of_ok {vars : Dict Value} (h : bindParams invoker m scope args s = .ok vars t) :
    invokeMacro invoker m scope args s =
      (exec invoker (vars :: scope) m.body).ensuring (·.mapContext (·.restore s.context))
        (t.mapContext (·.eraseAll (m.params.map (·.name)))) := by
  rw [invokeMacro, Run.get_bind, Run.bind_of_ok h, Run.modify_bind]

/-- The renderer that an invocation ends with. -/
lemma final_invokeMacro_of_ok {vars : Dict Value}
    (h : bindParams invoker m scope args s = .ok vars t) :
    (invokeMacro invoker m scope args).final s =
      ((exec invoker (vars :: scope) m.body).final
        (t.mapContext (·.eraseAll (m.params.map (·.name))))).mapContext (·.restore s.context) := by
  let body := exec invoker (vars :: scope) m.body
  let u := t.mapContext (·.eraseAll (m.params.map (·.name)))
  calc (invokeMacro invoker m scope args).final s
      = (body.ensuring (·.mapContext (·.restore s.context))).final u := by
        rw [Run.final, invokeMacro_of_ok h, ← Run.final]
    _ = (body.final u).mapContext (·.restore s.context) :=
        Run.final_ensuring body (·.mapContext (·.restore s.context)) u

/-- A snapshot survives being restored over a context exactly if it is at least as large or agrees
with it, and the context around a macro survives an invocation exactly if it is so for the context
that the body leaves. -/
theorem invocation_restores_iff (c snapshot : Context) (invoker : Invoker) (m : Macro)
    (scope : Scope) (args : List Value) (s : Renderer) :
    (snapshot.Within (c.restore snapshot) ↔ c.size ≤ snapshot.size ∨ c.Agrees snapshot) ∧
    (∀ k, snapshot.get? k = none → (c.restore snapshot).get? k = c.get? k) ∧
    match bindParams invoker m scope args s with
    | .error e t => invokeMacro invoker m scope args s = .error e t
    | .ok vars t =>
      let left := ((exec invoker (vars :: scope) m.body).final
        (t.mapContext (·.eraseAll (m.params.map (·.name))))).context
      s.context.Within ((invokeMacro invoker m scope args).final s).context ↔
        left.size ≤ s.context.size ∨ left.Agrees s.context := by
  refine ⟨Context.within_restore_iff c snapshot, fun _ => Context.get?_restore_of_none, ?_⟩
  cases hb : bindParams invoker m scope args s with
  | error e t => exact invokeMacro_of_error hb
  | ok vars t =>
    simp only [final_invokeMacro_of_ok hb]
    exact Context.within_restore_iff _ _

end Invocation

/-- A body that defines a name of its caller anew, and one name more, leaves the new definition
behind. -/
theorem redefinition_outlives_call : ∃ (m : Macro) (s : Renderer),
    ¬ s.context.Within ((invokeMacro (invoke maxCallDepth) m [] []).final s).context := by
  let define (name : String) : Instr := .define (.context name) ⟨name, [], [], "page"⟩
  let m : Macro := ⟨"m", [], [define "title", define "other"], "page"⟩
  let s : Renderer := .start (Context.empty.insert "title" (.string "Home")) 0
  refine ⟨m, s, fun h => ?_⟩
  have hold := h "title" (.string "Home") rfl
  have hnew : (((invokeMacro (invoke maxCallDepth) m [] []).final s).context.get? "title").map
      Value.isSafe = some true := by decide +kernel
  rw [hold] at hnew
  cases hnew

end Stencil
