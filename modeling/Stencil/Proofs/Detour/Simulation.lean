import Stencil.Proofs.Detour.Relation

/-!
Running programs that differ in places. From renderers that agree, code that both sides have in
common does the same on both: it puts out the same or fails with the same error, leaves renderers
that agree, and keeps what is avoided on either side (`Detour.Lawful.exec_sim`). If more invocations
are under way in the second renderer, the second side may also meet their limit where the first one
does not (`Run.Follows`).

The induction is on the room for invocations, of which there is as much less on the second side as
there are more under way. What an invocation gets beyond what it is made of are the keyword
arguments; since their entry may be avoided as well, `Detour.Invocations` says of them separately
that they correspond.
-/

namespace Stencil

/-! ### Following another computation -/

namespace Run

variable {α β : Type} {more : Nat} {S : Renderer → Renderer → Prop} {V : α → β → Prop}

/-- Both computations have given related results, or both have failed with the same error, unless
the second one, where so many more invocations are under way, has met the limit. -/
abbrev Follows (more : Nat) (S : Renderer → Renderer → Prop) (V : α → β → Prop) :
    EStateM.Result RenderError Renderer α → EStateM.Result RenderError Renderer β → Prop :=
  Matches (.limit False (0 < more)) S Eq V

namespace Follows

variable {act act' : Run α} {s s' : Renderer}

/-- Where no more invocations are under way, the outcome is the same. -/
lemma same_outcome (h : Follows 0 S Eq (act s) (act' s')) : act.outcome s = act'.outcome s' :=
  h.outcome_eq (fun _ hx => hx.1.elim) fun _ hx => absurd hx.1 (Nat.lt_irrefl 0)

/-- Where the first computation gives a result, so does the second one, or it meets the limit. -/
lemma outcome_of_ok (h : Follows more S Eq (act s) (act' s')) {a : α}
    (ha : act.outcome s = .ok a) :
    act'.outcome s' = .ok a ∨ ∃ what, act'.outcome s' = .error (.callDepth what) := by
  by_cases hlimit : ∃ what, act'.outcome s' = .error (.callDepth what)
  · exact .inr hlimit
  · refine .inl (ha ▸ h.outcome_eq (fun _ hx => hx.1.elim) ?_).symm
    rintro _ ⟨_, what, rfl⟩ hwhat
    exact hlimit ⟨what, hwhat⟩

end Follows

end Run

namespace Detour

/-! ### Both sides -/

/-- The renderers agree again, and what is avoided is as it was on either side. -/
structure After (D : Detour) (more : Nat) (s s' t t' : Renderer) : Prop where
  agree : D.Agree more t t'
  left : D.Kept s t
  right : D.Kept s' t'

/-- From renderers that agree, the second computation follows the first one. -/
def Sim (D : Detour) (more : Nat) {α β : Type} (V : α → β → Prop) (act : Run α) (act' : Run β) :
    Prop :=
  ∀ s s', D.Agree more s s' → Run.Follows more (D.After more s s') V (act s) (act' s')

variable {D : Detour} {more : Nat}

lemma After.trans {s s' t t' u u' : Renderer} (h : D.After more s s' t t')
    (h' : D.After more t t' u u') : D.After more s s' u u' :=
  ⟨h'.agree, h.left.trans h'.left, h.right.trans h'.right⟩

lemma Agree.after {s s' : Renderer} (h : D.Agree more s s') : D.After more s s' s s' :=
  ⟨h, .refl s, .refl s'⟩

section Sim

variable {α β γ δ : Type} {V : α → β → Prop} {W : γ → δ → Prop} {act : Run α} {act' : Run β}

lemma Sim.pure {a : α} {b : β} (h : V a b) :
    D.Sim more V (Pure.pure a : Run α) (Pure.pure b : Run β) :=
  fun _ _ hs => .ok h hs.after

lemma Sim.throw (e : RenderError) :
    D.Sim more V (MonadExcept.throw e : Run α) (MonadExcept.throw e : Run β) :=
  fun _ _ hs => .error rfl hs.after

lemma Sim.bind {k : α → Run γ} {k' : β → Run δ} (h : D.Sim more V act act')
    (hk : ∀ a b, V a b → D.Sim more W (k a) (k' b)) : D.Sim more W (act >>= k) (act' >>= k') := by
  intro s s' hs
  refine (h s s' hs).bind (fun _ _ ht => ht) fun a b t t' hv ht => ?_
  exact (hk a b hv t t' ht.agree).mono (fun _ _ hw => hw) fun _ _ hu => ht.trans hu

end Sim

/-- Computations are compared from renderers that agree. -/
@[reducible]
def comparison (D : Detour) (more : Nat) : Run.Comparison where
  Holds := D.Sim more
  pure := .pure
  bind := .bind

section Frame

variable {α β : Type} {V : α → β → Prop} {act : Run α} {act' : Run β} {s s' : Renderer}

/-- An invocation is counted on both sides. -/
lemma Agree.nested (hs : D.Agree more s s') {what : String}
    (h : Run.Follows more (D.After more s.deeper s'.deeper) V (act s.deeper) (act' s'.deeper)) :
    Run.Follows more (D.After more s s') V (Run.nested what act s) (Run.nested what act' s') := by
  rw [Run.nested, Run.nested]
  split
  next hle => rw [if_pos (by have := hs.depth; omega)]; exact .error rfl hs.after
  next hlt =>
    split
    next hle' => exact .right ⟨by have := hs.depth; omega, what, rfl⟩
    next =>
      exact h.ensuring fun t t' ht => ⟨ht.agree.of_deeper ht.left hs ht.right,
        ht.left.of_deeper, ht.right.of_deeper⟩

/-- An entry is set on both sides, and put back. -/
lemma Agree.withEntry (hD : D.Lawful) (hs : D.Agree more s s') {name : String}
    (hname : D.Settable name) {o o' : Option Value}
    (h : Run.Follows more
      (D.After more (s.mapContext (·.set name o)) (s'.mapContext (·.set name o'))) V
      (act (s.mapContext (·.set name o))) (act' (s'.mapContext (·.set name o')))) :
    Run.Follows more (D.After more s s') V (Run.withEntry name o act s)
      (Run.withEntry name o' act' s') :=
  h.ensuring fun _ _ ht =>
    ⟨ht.agree.set hD hname (hs.context name), ht.left.set_back, ht.right.set_back⟩

end Frame

lemma settable_caller : D.Settable callerName := fun _ => .inl rfl

lemma settable_kwargs : D.Settable kwargsName := fun _ => .inr rfl

/-! ### One level of invocations -/

/-- Invocations that correspond, with the keyword arguments that are there when they begin. -/
inductive Invocations (D : Detour) (s s' : Renderer) : Invocation → Invocation → Prop
  | call {m m' : Macro} {scope scope' : Scope} {args args' : List Value} : D.Macros m m' →
      Scope.Rel D.code scope scope' → List.Forall₂ D.value args args' →
      Dict.Rel D.value s.context.kwargs s'.context.kwargs →
      Invocations D s s' (.call m scope args) (.call m' scope' args')
  | block {b b' : List Instr} {o o' : Option Value} {scope scope' : Scope} : D.Code b b' →
      Option.Rel D.value o o' → Scope.Rel D.code scope scope' →
      Invocations D s s' (.block b o scope) (.block b' o' scope')
  | markup {b b' : List Instr} {scope scope' : Scope} : D.Code b b' →
      Scope.Rel D.code scope scope' → Invocations D s s' (.markup b scope) (.markup b' scope')

/-- The invokers carry out corresponding invocations alike. -/
def Carries (D : Detour) (more : Nat) (invoker invoker' : Invoker) : Prop :=
  ∀ {s s' i i'}, D.Agree more s s' → D.Invocations s s' i i' →
    Run.Follows more (D.After more s s') Eq (invoker i s) (invoker' i' s')

namespace Lawful

variable (hD : D.Lawful)

include hD

section Level

variable {invoker invoker' : Invoker} {scope scope' : Scope}
  (hI : D.Carries more invoker invoker')

include hI

/-- Corresponding calls end alike. -/
lemma callValue_sim {target target' : Value} {args args' : List Value}
    {kwargs kwargs' : Option (Dict Value)} (what what' : String) (ht : D.value target target')
    (hargs : List.Forall₂ D.value args args')
    (hkwargs : Option.Rel (Dict.Rel D.value) kwargs kwargs') (hwhat : what = what') :
    D.Sim more D.value (callValue invoker target args kwargs what)
      (callValue invoker' target' args' kwargs' what') := by
  subst hwhat
  have hentry := keywordEntry_rel hkwargs
  have enter {i i' : Invocation} (hi : ∀ s s' : Renderer,
      Dict.Rel D.value (s.calling kwargs).context.kwargs (s'.calling kwargs').context.kwargs →
      D.Invocations (s.calling kwargs) (s'.calling kwargs') i i') :
      D.Sim more D.value
        (Run.nested what (Run.withEntry kwargsName (kwargs.map .map) (invoker i)) >>=
          fun out => pure (.string out))
        (Run.nested what (Run.withEntry kwargsName (kwargs'.map .map) (invoker' i')) >>=
          fun out => pure (.string out)) := by
    refine .bind (V := Eq) ?_ ?_
    · intro s s' hs
      have hcalling : D.Agree more (s.calling kwargs) (s'.calling kwargs') :=
        hs.deeper.set hD settable_kwargs fun _ => hentry
      have hgiven : Option.Rel D.value ((s.calling kwargs).context.get? kwargsName)
          ((s'.calling kwargs').context.get? kwargsName) := by
        show Option.Rel D.value ((s.context.set kwargsName _).get? kwargsName)
          ((s'.context.set kwargsName _).get? kwargsName)
        rw [Context.get?_set, Context.get?_set, if_pos rfl, if_pos rfl]
        exact hentry
      have hinvoked := hI hcalling (hi s s' (Context.kwargs_rel hgiven))
      exact hs.nested (hs.deeper.withEntry hD settable_kwargs hinvoked)
    · rintro out _ rfl
      exact .pure (.string out)
  cases ht with
  | undefined => exact .pure .undefined
  | nothing => exact .pure .undefined
  | closure _ _ hm hscope => exact enter fun _ _ hk => .call hm hscope hargs hk
  | block _ _ hb ho hscope => exact enter fun _ _ _ => .block hb ho hscope
  | _ => exact .throw _

/-- What evaluation of corresponding expressions rests on. -/
lemma evaluation (hscope : Scope.Rel D.code scope scope') :
    Evaluation (D.comparison more) D.Ref D.value invoker invoker' scope scope' where
  congruence := Value.Likeness.congruence D.value
  reference he s s' hs := by
    cases he with
    | param name => exact .ok (Value.Rel.getD (hscope.get? name)) hs.after
    | context hn => exact .ok (Value.Rel.getD (hs.context _ hn)) hs.after
    | symbol hkey => exact .ok (Value.Rel.getD (hs.symbols _ hkey)) hs.after
    | route hroute =>
      rw [Renderer.eval_ref, Renderer.eval_ref]
      exact .ok (hs.routes hroute) hs.after
  call hv hargs hkwargs hc := hD.callValue_sim hI _ _ hv hargs hkwargs (hD.describe_eq hc)

/-- Corresponding expressions evaluate alike. -/
lemma eval_sim {e e' : Expr} (he : Expr.Rel D.Ref e e') (hscope : Scope.Rel D.code scope scope') :
    D.Sim more D.value (eval invoker scope e) (eval invoker' scope' e') :=
  eval_compare (hD.evaluation hI hscope) he

omit hD in
/-- Corresponding values show the same. -/
lemma display_sim {v v' : Value} (hv : D.value v v') :
    D.Sim more Eq (display invoker v) (display invoker' v') := by
  have htext := hv.text_eq
  cases hv with
  | shown _ hb hscope => exact fun s s' hs => hs.nested (hI hs.deeper (.markup hb hscope))
  | _ => exact .pure htext

/-- Corresponding call blocks evaluate alike. -/
lemma evalWrapped_sim {body body' : List Instr} {e e' : Expr} (hbody : D.Code body body')
    (he : Expr.Rel D.Ref e e') (hscope : Scope.Rel D.code scope scope') :
    D.Sim more D.value (evalWrapped invoker scope body e)
      (evalWrapped invoker' scope' body' e') := by
  intro s s' hs
  have hu := hs.renew (s.fresh + 1) (s'.fresh + 1)
  have hblock : ¬ D.avoids callerName → Option.Rel D.value
      (some (.block s.fresh body (s.context.get? callerName) scope))
      (some (.block s'.fresh body' (s'.context.get? callerName) scope')) :=
    fun hcaller => .some (.block _ _ hbody (hs.context _ hcaller) hscope)
  have heval := hD.eval_sim hI he hscope _ _ (hu.set hD settable_caller hblock)
  refine (hu.withEntry hD settable_caller heval).mono (fun _ _ hv => hv) fun t t' ht => ?_
  exact ⟨ht.agree, ⟨ht.left.context, ht.left.symbols, ht.left.depth⟩,
    ⟨ht.right.context, ht.right.symbols, ht.right.depth⟩⟩

/-- **Corresponding code does the same on both sides.** -/
lemma exec_sim {is is' : List Instr} (h : D.Code is is') (hscope : Scope.Rel D.code scope scope') :
    D.Sim more Eq (exec invoker scope is) (exec invoker' scope' is') := by
  let C := D.comparison more
  induction h with
  | nil => exact .pure rfl
  | text str _ ih => exact C.concat (.pure rfl) ih
  | output he _ ih =>
    exact C.concat ((hD.eval_sim hI he hscope).bind fun _ _ => display_sim hI) ih
  | callBlock _ _ hbody he _ _ ih =>
    exact C.concat ((hD.evalWrapped_sim hI hbody he hscope).bind fun _ _ => display_sim hI) ih
  | @define target m m' _ _ htarget hparams hfree hbody _ _ ih =>
    refine C.concat (fun s s' hs => .ok rfl ?_) ih
    have hclosure : D.value (.closure s.fresh m scope) (.closure s'.fresh m' scope') :=
      .closure _ _ ⟨hparams, hfree, hbody⟩ hscope
    have hbound (s : Renderer) (v : Value) :
        D.Kept s ({ s with fresh := s.fresh + 1 }.bind target v) :=
      .trans (t := { s with fresh := s.fresh + 1 }) ⟨fun _ _ => rfl, fun _ _ => rfl, rfl⟩
        (.bind htarget _ v)
    exact ⟨(hs.renew _ _).bind hD htarget hclosure, hbound s _, hbound s' _⟩
  | bindSpace hhandle _ hmarkup _ ihmembers _ ih =>
    refine C.concat (fun s s' hs => ?_) ih
    have hset (s : Renderer) (v : Value) : D.Kept s (s.mapContext (·.insert _ v)) :=
      .set hhandle s (some v)
    have hopen := hs.openSpace hD hhandle
    refine (ihmembers _ _ hopen).bind (fun t t' ht => ?_) fun out out' t t' hout ht => ?_
    · exact ⟨ht.agree, (hset s _).trans ht.left, (hset s' _).trans ht.right⟩
    · exact .ok hout ⟨ht.agree.closeSpace hD hhandle hmarkup hscope,
        ((hset s _).trans ht.left).trans (hset t _),
        ((hset s' _).trans ht.right).trans (hset t' _)⟩

/-- Corresponding defaults are filled in alike. -/
lemma fillDefaults_sim {ps ps' : List Param} {vars vars' : Dict Value}
    (hps : List.Forall₂ (Param.Rel D.Ref) ps ps') (hvars : Dict.Rel D.value vars vars')
    (hscope : Scope.Rel D.code scope scope') :
    D.Sim more (Dict.Rel D.value) (fillDefaults invoker scope ps vars)
      (fillDefaults invoker' scope' ps' vars') := by
  refine fillDefaults_compare (C := D.comparison more) id hps ?_ hvars
  intro p e e' vars vars' _ _ he hvars
  exact ⟨D.value, hD.eval_sim hI he (.cons hvars hscope), fun _ _ => hvars.insert p.name⟩

/-- Corresponding macros bind their parameters alike, if the keyword arguments correspond. -/
lemma bindParams_sim {m m' : Macro} {args args' : List Value} {s s' : Renderer}
    (hm : D.Macros m m') (hargs : List.Forall₂ D.value args args')
    (hscope : Scope.Rel D.code scope scope') (hs : D.Agree more s s')
    (hkwargs : Dict.Rel D.value s.context.kwargs s'.context.kwargs) :
    Run.Follows more (D.After more s s') (Dict.Rel D.value) (bindParams invoker m scope args s)
      (bindParams invoker' m' scope' args' s') := by
  have hfirst : Dict.Rel D.value (.ofList (positional m.params args))
      (.ofList (positional m'.params args')) :=
    Dict.rel_ofList (positional_rel hm.params hargs)
  refine (hD.fillDefaults_sim hI hm.params hfirst hscope s s' hs).bind (fun _ _ ht => ht) ?_
  intro vars vars' t t' hvars ht
  refine .ok (applyKeywords_rel ?_ hm.params hvars) ht
  -- the keyword arguments have stayed, or they correspond as all entries do that are not avoided
  by_cases havoids : D.avoids kwargsName
  · rw [Context.kwargs, Context.kwargs, ht.left.context _ havoids, ht.right.context _ havoids]
    exact hkwargs
  · exact Context.kwargs_rel (ht.agree.context _ havoids)

/-- Corresponding macros are invoked alike. -/
lemma invokeMacro_sim {m m' : Macro} {args args' : List Value} {s s' : Renderer}
    (hm : D.Macros m m') (hargs : List.Forall₂ D.value args args')
    (hscope : Scope.Rel D.code scope scope') (hs : D.Agree more s s')
    (hkwargs : Dict.Rel D.value s.context.kwargs s'.context.kwargs) :
    Run.Follows more (D.After more s s') Eq (invokeMacro invoker m scope args s)
      (invokeMacro invoker' m' scope' args' s') := by
  have hbind := hD.bindParams_sim hI hm hargs hscope hs hkwargs
  refine invokeMacro_matches hbind hm.params (fun _ _ ht => ht) ?_
  intro vars vars' t t' _ hvars ht
  have hfree : ∀ k ∈ m.params.map (·.name), ¬ D.avoids k := List.forall_mem_map.2 hm.free
  have hbody := hD.exec_sim hI hm.body (.cons hvars hscope) _ _ (ht.agree.eraseAll hD hfree)
  refine hbody.ensuring fun u u' hu => ?_
  have hkept := (ht.left.trans (.eraseAll hfree t)).trans hu.left
  have hkept' := (ht.right.trans (.eraseAll hfree t')).trans hu.right
  exact ⟨hs.restore hD hu.agree hkept hkept', hkept.restore, hkept'.restore⟩

/-- Corresponding invocations are carried out alike if those inside them are. -/
lemma carryOut_sim : D.Carries more (carryOut invoker) (carryOut invoker') := by
  intro s s' i i' hs hi
  cases hi with
  | call hm hscope hargs hkwargs => exact hD.invokeMacro_sim hI hm hargs hscope hs hkwargs
  | block hb ho hscope =>
    have hbody := hD.exec_sim hI hb hscope _ _ (hs.set hD settable_caller fun _ => ho)
    exact hs.withEntry hD settable_caller hbody
  | markup hb hscope => exact hD.exec_sim hI hb hscope _ _ hs

end Level

/-! ### All levels -/

/-- Corresponding invocations are carried out alike, if there is so much more room on the first
side as there are more invocations under way on the second one. -/
lemma invoke_sim (room : Nat) : D.Carries more (invoke (room + more)) (invoke room) := by
  induction room with
  | zero =>
    intro s s' i i' hs _
    cases more with
    | zero => exact .error rfl hs.after
    | succ n => exact .right ⟨Nat.succ_pos n, "", rfl⟩
  | succ room ih =>
    rw [Nat.succ_add_eq_add_succ]
    exact hD.carryOut_sim ih

end Lawful

end Detour

end Stencil
