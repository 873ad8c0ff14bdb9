import Stencil.Proofs.Snapshot

/-!
Evaluation is balanced. Whatever an expression calls, and wherever a call fails, the renderer it
leaves has the call depth and the keyword arguments of the renderer it started with and has lost no
name of the context (`Balanced`). Of running instructions, which may define macros called `kwargs`,
the same holds without the keyword arguments (`Holds`).

Both are proved for one level of invocations, given that invocations on the next level hold what
they are to hold (`exec_holds`, `callValue_balanced`), and then for all levels by induction on the
room for them (`invoke_holds`). The main result is `evaluation_balanced`.
-/

namespace Stencil

/-- The second renderer has the call depth of the first one, and all names of its context. -/
structure Holds (s t : Renderer) : Prop where
  depth : t.depth = s.depth
  names : ∀ k, (s.context.get? k).isSome → (t.context.get? k).isSome

/-- Besides, the keyword arguments of the call under way are the same. -/
structure Balanced (s t : Renderer) : Prop extends Holds s t where
  kwargs : t.context.get? kwargsName = s.context.get? kwargsName

namespace Holds

variable {s t u : Renderer}

lemma refl (s : Renderer) : Holds s s := ⟨rfl, fun _ h => h⟩

lemma trans (h : Holds s t) (h' : Holds t u) : Holds s u :=
  ⟨h'.depth.trans h.depth, fun k hk => h'.names k (h.names k hk)⟩

/-- Identities do not matter. -/
lemma renew (h : Holds s t) (n : Nat) : Holds s { t with fresh := n } := ⟨h.depth, h.names⟩

/-- A value at a name loses no name. -/
lemma insert (h : Holds s t) (name : String) (v : Value) :
    Holds s (t.mapContext (·.insert name v)) := by
  refine ⟨h.depth, fun k hk => ?_⟩
  show ((t.context.insert name v).get? k).isSome
  rw [Context.get?_insert]
  split
  · rfl
  · exact h.names k hk

/-- Neither does a definition. -/
lemma bind (h : Holds s t) (target : Binding) (v : Value) : Holds s (t.bind target v) := by
  cases target with
  | context name => exact h.insert name v
  | member handle name => exact h.insert handle _
  | hidden key => exact ⟨h.depth, h.names⟩

/-- An entry that is replaced and put back loses no name and is what it was. -/
lemma setBack {name : String} {v : Option Value}
    (h : Holds (s.mapContext (·.set name v)) t) :
    Holds s (t.mapContext (·.set name (s.context.get? name))) := by
  refine ⟨h.depth, fun k hk => ?_⟩
  show ((t.context.set name (s.context.get? name)).get? k).isSome
  rw [Context.get?_set]
  split
  next hname => exact hname ▸ hk
  next hname =>
    refine h.names k ?_
    show ((s.context.set name v).get? k).isSome
    rw [Context.get?_set, if_neg hname]
    exact hk

end Holds

namespace Balanced

variable {s t u : Renderer}

lemma refl (s : Renderer) : Balanced s s := ⟨.refl s, rfl⟩

lemma trans (h : Balanced s t) (h' : Balanced t u) : Balanced s u :=
  ⟨h.toHolds.trans h'.toHolds, h'.kwargs.trans h.kwargs⟩

end Balanced

namespace Run

variable {α : Type} {act : Run α} {s : Renderer}

/-- An entry that is replaced for a computation is afterwards what it was. -/
lemma get?_final_withEntry (name : String) (v : Option Value) (act : Run α) (s : Renderer) :
    ((withEntry name v act).final s).context.get? name = s.context.get? name := by
  rw [final_withEntry]
  show ((act.final _).context.set name _).get? name = _
  rw [Context.get?_set, if_pos rfl]

/-- Replacing an entry for a computation loses no name. -/
lemma holds_withEntry (name : String) (v : Option Value) (h : ∀ s, Holds s (act.final s)) :
    Holds s ((withEntry name v act).final s) := by
  rw [final_withEntry]
  exact (h _).setBack

/-- Counting an invocation leaves the count as it was. -/
lemma holds_nested (what : String) (h : ∀ s, Holds s (act.final s)) :
    Holds s ((nested what act).final s) := by
  by_cases hd : maxCallDepth ≤ s.depth
  · rw [final_nested_of_le hd]
    exact .refl s
  · have hact := h { s with depth := s.depth + 1 }
    rw [final_nested_of_lt (Nat.not_le.1 hd)]
    refine ⟨?_, hact.names⟩
    show (act.final { s with depth := s.depth + 1 }).depth - 1 = s.depth
    rw [hact.depth, Nat.add_sub_cancel]

/-- Counting an invocation does not touch the context otherwise. -/
lemma get?_final_nested {what name : String}
    (h : ∀ s, (act.final s).context.get? name = s.context.get? name) :
    ((nested what act).final s).context.get? name = s.context.get? name := by
  by_cases hd : maxCallDepth ≤ s.depth
  · rw [final_nested_of_le hd]
  · rw [final_nested_of_lt (Nat.not_le.1 hd)]
    exact h { s with depth := s.depth + 1 }

end Run

/-! ### One level of invocations -/

section Level

variable {invoker : Invoker} (hI : ∀ i s, Holds s ((invoker i).final s))

include hI

/-- A call is balanced. -/
lemma callValue_balanced (target : Value) (args : List Value) (kwargs : Option (Dict Value))
    (what : String) (s : Renderer) :
    Balanced s ((callValue invoker target args kwargs what).final s) := by
  have enter (i : Invocation) : Balanced s ((Run.nested what
      (Run.withEntry kwargsName (kwargs.map .map) (invoker i))).final s) :=
    ⟨Run.holds_nested what fun _ => Run.holds_withEntry _ _ (hI i),
      Run.get?_final_nested (Run.get?_final_withEntry _ _ _)⟩
  cases target with
  | closure id m scope => rw [callValue, Run.final_bind_pure]; exact enter _
  | block id body outer scope => rw [callValue, Run.final_bind_pure]; exact enter _
  | _ => exact .refl s

/-- An expression is balanced. -/
lemma eval_balanced (scope : Scope) (e : Expr) (s : Renderer) :
    Balanced s ((eval invoker scope e).final s) :=
  eval_keeps (p := Balanced s)
    (fun _ _ _ _ t ht => ht.trans (callValue_balanced hI _ _ _ _ t)) e s (.refl s)

/-- What a value shows loses no name. -/
lemma display_holds (v : Value) (s : Renderer) : Holds s ((display invoker v).final s) := by
  simp only [display]
  split
  · exact Run.holds_nested _ (hI _)
  · exact .refl s

/-- The wrapped expression of a call block is balanced, and `caller` is afterwards what it was. -/
lemma evalWrapped_balanced (scope : Scope) (body : List Instr) (e : Expr) (s : Renderer) :
    Balanced s ((evalWrapped invoker scope body e).final s) ∧
      ((evalWrapped invoker scope body e).final s).context.get? callerName =
        s.context.get? callerName := by
  let s₁ : Renderer := { s with fresh := s.fresh + 1 }
  let block := Value.block s.fresh body (s.context.get? callerName) scope
  have hfinal : (evalWrapped invoker scope body e).final s =
      (Run.withEntry callerName (some block) (eval invoker scope e)).final s₁ := rfl
  have hholds : Holds s₁ ((evalWrapped invoker scope body e).final s) := by
    rw [hfinal]
    exact Run.holds_withEntry _ _ fun t => (eval_balanced hI scope e t).toHolds
  refine ⟨⟨⟨hholds.depth, hholds.names⟩, ?_⟩, ?_⟩
  · -- `kwargs` is not the entry that is put back, so the expression itself has to keep it
    have hne : callerName ≠ kwargsName := by decide
    have heval := (eval_balanced hI scope e (s₁.mapContext (·.set callerName (some block)))).kwargs
    rw [hfinal, Run.final_withEntry]
    show ((Run.final _ _).context.set callerName _).get? kwargsName = _
    rw [Context.get?_set, if_neg hne, heval]
    show (s.context.set callerName (some block)).get? kwargsName = _
    rw [Context.get?_set, if_neg hne]
  · rw [hfinal]
    exact Run.get?_final_withEntry callerName (some block) (eval invoker scope e) s₁

omit hI in
mutual

/-- An instruction loses no name. -/
lemma execInstr_holds (hI : ∀ i s, Holds s ((invoker i).final s)) (scope : Scope) (s₀ : Renderer) :
    ∀ i : Instr, (execInstr invoker scope i).Keeps (Holds s₀)
  | .text _ => .pure _
  | .output e =>
    Run.Keeps.bind (fun s h => h.trans (eval_balanced hI scope e s).toHolds) fun v s h =>
      h.trans (display_holds hI v s)
  | .define target m => fun s h =>
    (h.renew (s.fresh + 1)).bind target (.closure s.fresh m scope)
  | .callBlock body e _ =>
    Run.Keeps.bind (fun s h => h.trans (evalWrapped_balanced hI scope body e s).1.toHolds)
      fun v s h => h.trans (display_holds hI v s)
  | .bindSpace handle members _ =>
    Run.Keeps.bind (fun _ h => h.insert handle _) fun _ =>
      Run.Keeps.bind (exec_holds hI scope s₀ members) fun _ =>
        Run.Keeps.bind (fun _ h => h.insert handle _) fun _ => .pure _

/-- Instructions lose no name. -/
lemma exec_holds (hI : ∀ i s, Holds s ((invoker i).final s)) (scope : Scope) (s₀ : Renderer) :
    ∀ is : List Instr, (exec invoker scope is).Keeps (Holds s₀)
  | [] => .pure _
  | i :: rest =>
    Run.Keeps.bind (execInstr_holds hI scope s₀ i) fun _ =>
      Run.Keeps.bind (exec_holds hI scope s₀ rest) fun _ => .pure _

end

/-- Defaults lose no name. -/
lemma fillDefaults_holds (scope : Scope) (s₀ : Renderer) (ps : List Param) (vars : Dict Value) :
    (fillDefaults invoker scope ps vars).Keeps (Holds s₀) := by
  induction ps generalizing vars with
  | nil => exact .pure _
  | cons p rest ih =>
    rw [fillDefaults]
    split
    · exact ih vars
    next e _ =>
      split
      · exact Run.Keeps.bind (fun s h => h.trans (eval_balanced hI _ e s).toHolds) fun _ => ih _
      · exact ih vars

/-- Neither does giving the parameters of a macro their values. -/
lemma bindParams_holds (m : Macro) (scope : Scope) (args : List Value) (s : Renderer) :
    Holds s ((bindParams invoker m scope args).final s) := by
  refine Run.Keeps.bind (fillDefaults_holds hI scope s m.params _) (fun vars => ?_) s (.refl s)
  exact .get_bind fun _ h => h

/-- The body of a macro may remove the names of parameters, but the snapshot has them all. -/
lemma invokeMacro_holds (m : Macro) (scope : Scope) (args : List Value) (s : Renderer) :
    Holds s ((invokeMacro invoker m scope args).final s) := by
  have hb := bindParams_holds hI m scope args s
  cases h : bindParams invoker m scope args s with
  | error e t =>
    rw [Run.final_of_error h] at hb
    rw [Run.final_of_error (invokeMacro_of_error h)]
    exact hb
  | ok vars t =>
    rw [Run.final_of_ok h] at hb
    rw [final_invokeMacro_of_ok h]
    have hbody := exec_holds hI (vars :: scope) _ m.body _
      (.refl (t.mapContext (·.eraseAll (m.params.map (·.name)))))
    exact ⟨hbody.depth.trans hb.depth, fun _ => Context.isSome_get?_restore⟩

/-- An invocation loses no name if those inside it lose none. -/
lemma carryOut_holds (i : Invocation) (s : Renderer) : Holds s ((carryOut invoker i).final s) := by
  cases i with
  | call m scope args => exact invokeMacro_holds hI m scope args s
  | block body outer scope =>
    exact Run.holds_withEntry _ _ fun t => exec_holds hI scope t body t (.refl t)
  | markup body scope => exact exec_holds hI scope s body s (.refl s)

end Level

/-! ### All levels -/

/-- However much room there is, an invocation loses no name. -/
lemma invoke_holds (room : Nat) (i : Invocation) (s : Renderer) :
    Holds s ((invoke room i).final s) := by
  induction room generalizing i s with
  | zero => exact .refl s
  | succ room ih => exact carryOut_holds ih i s

/-- **Evaluation is balanced**, whether it fails or not: an expression leaves the call depth and
the keyword arguments as they were and all names in the context, as part of a call block it also
leaves `caller` as it was, and a program leaves the call depth as it was and all names in the
context. -/
theorem evaluation_balanced (s : Renderer) :
    (∀ (room : Nat) (scope : Scope) (e : Expr),
      Balanced s ((eval (invoke room) scope e).final s) ∧
      ∀ body : List Instr, Balanced s ((evalWrapped (invoke room) scope body e).final s) ∧
        ((evalWrapped (invoke room) scope body e).final s).context.get? callerName =
          s.context.get? callerName) ∧
    ∀ p : Program, Holds s ((Renderer.render p).final s) :=
  ⟨fun room scope e => ⟨eval_balanced (invoke_holds room) scope e s,
      fun body => evalWrapped_balanced (invoke_holds room) scope body e s⟩,
    fun p => exec_holds (invoke_holds maxCallDepth) [] s p.instrs s (.refl s)⟩

end Stencil
