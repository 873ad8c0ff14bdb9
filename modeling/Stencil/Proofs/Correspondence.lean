import Stencil.Proofs.Simulation

/-!
Code that defines nothing. A `Correspondence` says which references mean the same in two renderers
that `agree`. The main result is `Correspondence.Lawful.invoke_sim`: corresponding invocations of
code that defines nothing end alike, and both leave context, private table and call depth exactly as
they found them (`Renderer.Same`).

The two halves need each other. That a call leaves no trace keeps the renderers in agreement for the
code after it; and the snapshot restores the context exactly because the body, by induction on the
room for invocations, has only lost the names of parameters (`Context.restore_of_within`).
-/

namespace Stencil

/-! ### Renderers without a trace -/

/-- The second renderer differs from the first in the identities to come at most. -/
structure Renderer.Same (s t : Renderer) : Prop where
  context : t.context = s.context
  symbols : t.symbols = s.symbols
  depth : t.depth = s.depth

namespace Renderer.Same

variable {s t u : Renderer}

lemma refl (s : Renderer) : Same s s := ⟨rfl, rfl, rfl⟩

lemma symm (h : Same s t) : Same t s := ⟨h.context.symm, h.symbols.symm, h.depth.symm⟩

lemma trans (h : Same s t) (h' : Same t u) : Same s u :=
  ⟨h'.context.trans h.context, h'.symbols.trans h.symbols, h'.depth.trans h.depth⟩

lemma mapContext (h : Same s t) (f : Context → Context) :
    Same (s.mapContext f) (t.mapContext f) :=
  ⟨congrArg f h.context, h.symbols, h.depth⟩

lemma deeper (h : Same s t) (n : Nat) :
    Same { s with depth := s.depth + n } { t with depth := t.depth + n } :=
  ⟨h.context, h.symbols, congrArg (· + n) h.depth⟩

end Renderer.Same

/-- An entry that is replaced and put back has never been replaced. -/
lemma Context.set_set_get? (c : Context) (name : String) (v : Option Value) :
    (c.set name v).set name (c.get? name) = c := by
  refine ext_get? fun k => ?_
  rw [get?_set, get?_set]
  by_cases h : name = k
  · rw [if_pos h, h]
  · rw [if_neg h, if_neg h]

/-- Each of two renderers is left as it was. -/
def Pinned (s s' t t' : Renderer) : Prop :=
  s.Same t ∧ s'.Same t'

lemma Pinned.refl (s s' : Renderer) : Pinned s s' s s' := ⟨.refl s, .refl s'⟩

lemma Pinned.trans {s s' t t' u u' : Renderer} (h : Pinned s s' t t') (h' : Pinned t t' u u') :
    Pinned s s' u u' :=
  ⟨h.1.trans h'.1, h.2.trans h'.2⟩

/-! ### Correspondences -/

/-- Two ways of referring to the same things. -/
structure Correspondence where
  /-- References of the two ways that mean the same. -/
  ref : Expr → Expr → Prop
  /-- The names of the context that code may bind anew or remove. -/
  free : String → Prop
  /-- Renderers in which corresponding references have related values. -/
  agree : Renderer → Renderer → Prop
  /-- Errors that count as the same. -/
  error : RenderError → RenderError → Prop

namespace Correspondence

/-- The code that corresponds. -/
def code (C : Correspondence) : CodeRel :=
  .flat C.ref C.free

/-- The values that correspond. -/
abbrev value (C : Correspondence) : Value → Value → Prop :=
  Value.Rel C.code

/-- The invocations that correspond. -/
inductive invocation (C : Correspondence) : Invocation → Invocation → Prop
  | call {m m' : Macro} {s s' : Scope} {args args' : List Value} :
      Macro.Rel C.ref C.free m m' → Scope.Rel C.code s s' → List.Forall₂ C.value args args' →
      C.invocation (.call m s args) (.call m' s' args')
  | block {b b' : List Instr} {o o' : Option Value} {s s' : Scope} :
      Code.Rel C.ref b b' → Option.Rel C.value o o' → Scope.Rel C.code s s' →
      C.invocation (.block b o s) (.block b' o' s')
  | markup {b b' : List Instr} {s s' : Scope} :
      Code.Rel C.ref b b' → Scope.Rel C.code s s' → C.invocation (.markup b s) (.markup b' s')

/-- From renderers that agree, both computations end alike and leave the renderers as they were. -/
def Sim (C : Correspondence) {α β : Type} (V : α → β → Prop) (act : Run α) (act' : Run β) : Prop :=
  ∀ {s s'}, C.agree s s' → Run.Sim (Pinned s s') C.error V act act'

/-- What makes a correspondence one. -/
structure Lawful (C : Correspondence) : Prop where
  free_caller : C.free callerName
  free_kwargs : C.free kwargsName
  depth_eq : ∀ {s s'}, C.agree s s' → s.depth = s'.depth
  same : ∀ {s s' t t'}, C.agree s s' → Pinned s s' t t' → C.agree t t'
  deeper : ∀ {s s'}, C.agree s s' → C.agree { s with depth := s.depth + 1 }
    { s' with depth := s'.depth + 1 }
  get? : ∀ {s s' name}, C.agree s s' → C.free name →
    Option.Rel C.value (s.context.get? name) (s'.context.get? name)
  set : ∀ {s s' name v v'}, C.agree s s' → C.free name → Option.Rel C.value v v' →
    C.agree (s.mapContext (·.set name v)) (s'.mapContext (·.set name v'))
  reference : ∀ {s s' e e' scope scope'}, C.agree s s' → C.ref e e' →
    Scope.Rel C.code scope scope' → ∃ v v', C.value v v' ∧ ∀ invoker invoker',
      eval invoker scope e s = .ok v s ∧ eval invoker' scope' e' s' = .ok v' s'
  notCallable : ∀ {c c'} type, Expr.Rel C.ref c c' →
    C.error (.notCallable type c.describe) (.notCallable type c'.describe)
  callDepth : ∀ {c c'}, Expr.Rel C.ref c c' →
    C.error (.callDepth c.describe) (.callDepth c'.describe)
  error_refl : ∀ e, C.error e e

namespace Lawful

variable {C : Correspondence} (hC : C.Lawful) {α β : Type} {V : α → β → Prop} {act : Run α}
  {act' : Run β} {name : String} {v v' : Option Value}

include hC

/-- Replacing an entry for a computation leaves no trace if the computation leaves none. -/
lemma sim_withEntry (hfree : C.free name) (hv : Option.Rel C.value v v') (h : C.Sim V act act') :
    C.Sim V (Run.withEntry name v act) (Run.withEntry name v' act') := by
  intro s s' hs t t' ht
  have hset : Pinned (s.mapContext (·.set name v)) (s'.mapContext (·.set name v'))
      (t.mapContext (·.set name v)) (t'.mapContext (·.set name v')) :=
    ⟨ht.1.mapContext _, ht.2.mapContext _⟩
  have back {r : Renderer} {w : Option Value} {q u : Renderer} (hq : r.Same q)
      (hu : (r.mapContext (·.set name w)).Same u) :
      r.Same (u.mapContext (·.set name (q.context.get? name))) := by
    refine ⟨?_, hu.symbols, hu.depth⟩
    show u.context.set name (q.context.get? name) = r.context
    rw [hu.context, hq.context]
    exact Context.set_set_get? r.context name w
  exact (h (hC.set hs hfree hv) _ _ hset).ensuring fun u u' hu =>
    ⟨back ht.1 hu.1, back ht.2 hu.2⟩

/-- Counting an invocation leaves no trace. -/
lemma sim_nested {what what' : String} (hE : C.error (.callDepth what) (.callDepth what'))
    (h : C.Sim V act act') : C.Sim V (Run.nested what act) (Run.nested what' act') := by
  intro s s' hs t t' ht
  have hdepth : t.depth = t'.depth := by
    rw [ht.1.depth, ht.2.depth, hC.depth_eq hs]
  rw [Run.nested, Run.nested]
  rw [← hdepth]
  split
  · exact .error hE ht
  · refine (h (hC.deeper hs) _ _ ⟨ht.1.deeper 1, hdepth ▸ ht.2.deeper 1⟩).ensuring fun u u' hu => ?_
    exact ⟨⟨hu.1.context, hu.1.symbols, congrArg (· - 1) hu.1.depth⟩,
      ⟨hu.2.context, hu.2.symbols, congrArg (· - 1) hu.2.depth⟩⟩

/-- Removing names keeps renderers in agreement. -/
lemma agree_eraseAll {s s' : Renderer} (names : List String) (hs : C.agree s s')
    (hfree : ∀ k ∈ names, C.free k) :
    C.agree (s.mapContext (·.eraseAll names)) (s'.mapContext (·.eraseAll names)) := by
  induction names generalizing s s' with
  | nil => exact hs
  | cons k rest ih =>
    have hset : C.agree (s.mapContext (·.set k none)) (s'.mapContext (·.set k none)) :=
      hC.set hs (hfree k List.mem_cons_self) .none
    exact ih hset fun x hx => hfree x (List.mem_cons_of_mem k hx)

end Lawful

/-- A renderer whose context has only lost some names is restored exactly. -/
lemma same_of_restore {s t u : Renderer} {names : List String} (ht : s.Same t)
    (hu : (t.mapContext (·.eraseAll names)).Same u) :
    s.Same (u.mapContext (·.restore s.context)) := by
  refine ⟨Context.restore_of_within fun k v hv => ?_, hu.symbols.trans ht.symbols,
    hu.depth.trans ht.depth⟩
  have herase : u.context = s.context.eraseAll names := by
    rw [hu.context, ← ht.context]
    rfl
  rw [herase, Context.get?_eraseAll] at hv
  split at hv
  · cases hv
  · exact hv

/-! ### One level of invocations -/

namespace Lawful

variable {C : Correspondence} (hC : C.Lawful)

include hC

section Level

variable {invoker invoker' : Invoker} {scope scope' : Scope}
  (hI : ∀ {i i'}, C.invocation i i' → C.Sim Eq (invoker i) (invoker' i'))

include hI

/-- Corresponding calls end alike. -/
lemma callValue_sim {target target' : Value} {args args' : List Value}
    {kwargs kwargs' : Option (Dict Value)} {c c' : Expr} (ht : C.value target target')
    (hargs : List.Forall₂ C.value args args')
    (hkwargs : Option.Rel (Dict.Rel C.value) kwargs kwargs') (hc : Expr.Rel C.ref c c') :
    C.Sim (fun v v' => v = v' ∧ C.value v v') (callValue invoker target args kwargs c.describe)
      (callValue invoker' target' args' kwargs' c'.describe) := by
  have enter {i i' : Invocation} (hi : C.invocation i i') :
      C.Sim (fun v v' => v = v' ∧ C.value v v')
        (Run.nested c.describe (Run.withEntry kwargsName (kwargs.map .map) (invoker i)) >>=
          fun out => pure (.string out))
        (Run.nested c'.describe (Run.withEntry kwargsName (kwargs'.map .map) (invoker' i')) >>=
          fun out => pure (.string out)) := by
    intro s s' hs
    refine (hC.sim_nested (hC.callDepth hc)
      (hC.sim_withEntry hC.free_kwargs (keywordEntry_rel hkwargs) (hI hi)) hs).bind ?_
    rintro out _ rfl
    exact .pure ⟨rfl, .string out⟩
  intro s s' hs
  cases ht with
  | undefined => exact .pure ⟨rfl, .undefined⟩
  | nothing => exact .pure ⟨rfl, .undefined⟩
  | closure _ _ hm hscope => exact enter (.call hm hscope hargs) hs
  | block _ _ hb ho hscope => exact enter (.block hb ho hscope) hs
  | _ => exact .throw (hC.notCallable _ hc)

/-- What evaluation of corresponding expressions rests on. -/
lemma evalSim {s s' : Renderer} (hs : C.agree s s') (hscope : Scope.Rel C.code scope scope') :
    EvalSim C.ref (Pinned s s') C.error C.value invoker invoker' scope scope' where
  congruence := Value.Likeness.congruence C.value
  reference hr := by
    intro t t' ht
    obtain ⟨v, v', hv, heval⟩ := hC.reference (hC.same hs ht) hr hscope
    obtain ⟨h, h'⟩ := heval invoker invoker'
    rw [h, h']
    exact .ok hv ht
  call hv hargs hkwargs hc := by
    intro t t' ht
    have hcall := hC.callValue_sim hI hv hargs hkwargs hc hs t t' ht
    exact hcall.mono (fun _ _ h => h.2) fun _ _ hu => hu

/-- Corresponding expressions evaluate alike. -/
lemma eval_sim {e e' : Expr} (he : Expr.Rel C.ref e e') (hscope : Scope.Rel C.code scope scope') :
    C.Sim C.value (eval invoker scope e) (eval invoker' scope' e') :=
  fun hs => Stencil.eval_sim (hC.evalSim hI hs hscope) he

/-- Corresponding values show the same. -/
lemma display_sim {w w' : Value} (hw : C.value w w') :
    C.Sim Eq (display invoker w) (display invoker' w') := by
  intro s s' hs
  have htext := hw.text_eq
  cases hw with
  | shown _ hb hscope =>
    exact hC.sim_nested (hC.error_refl _) (hI (.markup hb hscope)) hs
  | _ => exact .pure htext

/-- Corresponding call blocks evaluate alike. -/
lemma evalWrapped_sim {body body' : List Instr} {e e' : Expr} (hbody : Code.Rel C.ref body body')
    (he : Expr.Rel C.ref e e') (hscope : Scope.Rel C.code scope scope') :
    C.Sim C.value (evalWrapped invoker scope body e) (evalWrapped invoker' scope' body' e') := by
  intro s s' hs t t' ht
  let u : Renderer := { t with fresh := t.fresh + 1 }
  let u' : Renderer := { t' with fresh := t'.fresh + 1 }
  have hu : Pinned s s' u u' := ht.trans ⟨⟨rfl, rfl, rfl⟩, ⟨rfl, rfl, rfl⟩⟩
  have hagree := hC.same hs hu
  have hblock : Option.Rel C.value
      (some (.block t.fresh body (t.context.get? callerName) scope))
      (some (.block t'.fresh body' (t'.context.get? callerName) scope')) :=
    .some (.block _ _ hbody (hC.get? (hC.same hs ht) hC.free_caller) hscope)
  have heval := hC.sim_withEntry hC.free_caller hblock (hC.eval_sim hI he hscope) hagree u u'
    (.refl u u')
  exact heval.mono (fun _ _ h => h) fun _ _ h => hu.trans h

/-- Corresponding code puts out the same. -/
lemma exec_sim {is is' : List Instr} (h : Code.Rel C.ref is is')
    (hscope : Scope.Rel C.code scope scope') :
    C.Sim Eq (exec invoker scope is) (exec invoker' scope' is') := by
  intro s s' hs
  let D : Run.Comparison := .sim (Pinned s s') C.error
  -- what is evaluated is displayed in renderers that still agree
  have displayed {w w' : Value} (hw : C.value w w') :
      Run.Sim (Pinned s s') C.error Eq (display invoker w) (display invoker' w') :=
    hC.display_sim hI hw hs
  induction h with
  | nil => exact .pure rfl
  | text str _ ih => exact D.concat (.pure rfl) ih
  | output he _ ih => exact D.concat ((hC.eval_sim hI he hscope hs).bind fun _ _ => displayed) ih
  | callBlock _ _ hbody he _ _ ih =>
    exact D.concat ((hC.evalWrapped_sim hI hbody he hscope hs).bind fun _ _ => displayed) ih

/-- Corresponding defaults are filled in alike. -/
lemma fillDefaults_sim {ps ps' : List Param} {vars vars' : Dict Value}
    (hps : List.Forall₂ (Param.Rel C.ref) ps ps') (hvars : Dict.Rel C.value vars vars')
    (hscope : Scope.Rel C.code scope scope') :
    C.Sim (Dict.Rel C.value) (fillDefaults invoker scope ps vars)
      (fillDefaults invoker' scope' ps' vars') := by
  intro s s' hs
  refine fillDefaults_compare (C := .sim (Pinned s s') C.error) id hps ?_ hvars
  intro p e e' vars vars' _ _ he hvars
  exact ⟨C.value, hC.eval_sim hI he (.cons hvars hscope) hs, fun _ _ => hvars.insert p.name⟩

/-- Corresponding macros bind their parameters alike. -/
lemma bindParams_sim {m m' : Macro} {args args' : List Value} (hm : Macro.Rel C.ref C.free m m')
    (hargs : List.Forall₂ C.value args args') (hscope : Scope.Rel C.code scope scope') :
    C.Sim (Dict.Rel C.value) (bindParams invoker m scope args)
      (bindParams invoker' m' scope' args') := by
  intro s s' hs
  have hfirst : Dict.Rel C.value (.ofList (positional m.params args))
      (.ofList (positional m'.params args')) :=
    Dict.rel_ofList (positional_rel hm.params hargs)
  refine (hC.fillDefaults_sim hI hm.params hfirst hscope hs).bind fun vars vars' hvars => ?_
  intro t t' ht
  have hkwargs := Context.kwargs_rel (hC.get? (hC.same hs ht) hC.free_kwargs)
  exact .ok (applyKeywords_rel hkwargs hm.params hvars) ht

/-- Corresponding macros are invoked alike. The snapshot restores the context exactly, since the
body has left it as it was but for the parameters that had been removed. -/
lemma invokeMacro_sim {m m' : Macro} {args args' : List Value} (hm : Macro.Rel C.ref C.free m m')
    (hargs : List.Forall₂ C.value args args') (hscope : Scope.Rel C.code scope scope') :
    C.Sim Eq (invokeMacro invoker m scope args) (invokeMacro invoker' m' scope' args') := by
  intro s s' hs t t' ht
  have hbind := hC.bindParams_sim hI hm hargs hscope (hC.same hs ht) t t' (.refl t t')
  refine invokeMacro_matches hbind hm.params (fun _ _ => ht.trans) ?_
  intro vars vars' u u' _ hvars hu
  have hfree : ∀ k ∈ m.params.map (·.name), C.free k := List.forall_mem_map.2 hm.free
  have hagree := hC.agree_eraseAll _ (hC.same (hC.same hs ht) hu) hfree
  have hbody := hC.exec_sim hI hm.body (.cons hvars hscope) hagree _ _ (.refl _ _)
  exact hbody.ensuring fun x x' hx =>
    ⟨ht.1.trans (same_of_restore hu.1 hx.1), ht.2.trans (same_of_restore hu.2 hx.2)⟩

/-- Corresponding invocations end alike if those inside them do. -/
lemma carryOut_sim {i i' : Invocation} (hi : C.invocation i i') :
    C.Sim Eq (carryOut invoker i) (carryOut invoker' i') := by
  cases hi with
  | call hm hscope hargs => exact hC.invokeMacro_sim hI hm hargs hscope
  | block hb ho hscope => exact hC.sim_withEntry hC.free_caller ho (hC.exec_sim hI hb hscope)
  | markup hb hscope => exact hC.exec_sim hI hb hscope

end Level

/-! ### All levels -/

/-- Corresponding invocations of code that defines nothing end alike and leave no trace. -/
lemma invoke_sim (room : Nat) {i i' : Invocation} (hi : C.invocation i i') :
    C.Sim Eq (invoke room i) (invoke room i') := by
  induction room generalizing i i' with
  | zero => exact fun _ => .throw (hC.error_refl _)
  | succ room ih => exact hC.carryOut_sim ih hi

end Lawful

end Correspondence

end Stencil
