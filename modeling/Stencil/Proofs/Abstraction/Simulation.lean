import Stencil.Proofs.Abstraction.Relation
import Stencil.Proofs.Reach

/-!
Running a program before and after an abstraction. More calls are under way in the abstracted
program, so that it may meet their limit where the other one does not. `Run.Ends` therefore excuses
two computations if one of them has met the limit, and otherwise has them give related results or
fail with the same error.

Each step of calling a macro may be taken on one side alone (`Ends.deeper_right`,
`Ends.withEntry_right`, `ends_callMacro`, `ends_callBlock`). So a call block of a passing macro runs
its content in the scope around the call block and with the outer `caller`, in a renderer from which
only the keyword arguments have disappeared (`ends_handed`), and a macro without parameters that is
called where it has been defined runs its body (`ends_extracted`).

Corresponding code that defines nothing ends alike and leaves no trace on either side
(`Lawful.flat_sim`), and code at the top level leaves renderers that agree (`Lawful.exec_topLevel`).
The induction is on the room on the second side, which a passing macro diminishes by two while the
room on the first side stays.
-/

namespace Stencil

/-! ### Ending alike -/

/-- Both computations have given related results, or both have failed with the same error, unless
one of them has met the limit of calls under way. -/
abbrev Run.Ends {α β : Type} (S : Renderer → Renderer → Prop) (V : α → β → Prop) :
    EStateM.Result RenderError Renderer α → EStateM.Result RenderError Renderer β → Prop :=
  Matches (.limit True True) S Eq V

/-! ### Invocations that leave no trace -/

section Trace

variable {α β : Type} {V : α → β → Prop} {act : Run α} {act' : Run β} {s s' t u : Renderer}
  {r : EStateM.Result RenderError Renderer α} {r' : EStateM.Result RenderError Renderer β}

/-- An entry that has been replaced is put back. -/
lemma Renderer.Same.set_get? {name : String} {o : Option Value}
    (h : (s.mapContext (·.set name o)).Same t) :
    s.Same (t.mapContext (·.set name (s.context.get? name))) := by
  refine ⟨?_, h.symbols, h.depth⟩
  show t.context.set name (s.context.get? name) = s.context
  rw [h.context]
  exact Context.set_set_get? s.context name o

/-- An invocation is no longer counted when it is over. -/
lemma Renderer.Same.of_deeper (h : s.deeper.Same t) : s.Same { t with depth := t.depth - 1 } :=
  ⟨h.context, h.symbols, congrArg (· - 1) h.depth⟩

namespace Run.Ends

/-- A side that has met the limit excuses both. -/
lemma limit_left {S : Renderer → Renderer → Prop} (what : String) :
    Ends S V (.error (.callDepth what) t) r' :=
  .left ⟨trivial, what, rfl⟩

lemma limit_right {S : Renderer → Renderer → Prop} (what : String) :
    Ends S V r (.error (.callDepth what) t) :=
  .right ⟨trivial, what, rfl⟩

/-- An invocation on one side alone leaves no trace. -/
lemma deeper_left {what : String} (h : Ends (Pinned s.deeper s') V (act s.deeper) r') :
    Ends (Pinned s s') V (act.nested what s) r' :=
  h.nested_left trivial fun _ _ ht => ⟨ht.1.of_deeper, ht.2⟩

lemma deeper_right {what : String} (h : Ends (Pinned s s'.deeper) V r (act' s'.deeper)) :
    Ends (Pinned s s') V r (act'.nested what s') :=
  h.nested_right trivial fun _ _ ht => ⟨ht.1, ht.2.of_deeper⟩

/-- Nor does an entry that is there on one side while something runs. -/
lemma withEntry_left {name : String} {o : Option Value}
    (h : Ends (Pinned (s.mapContext (·.set name o)) s') V (act (s.mapContext (·.set name o))) r') :
    Ends (Pinned s s') V (act.withEntry name o s) r' :=
  h.ensuring_left fun _ _ ht => ⟨ht.1.set_get?, ht.2⟩

lemma withEntry_right {name : String} {o : Option Value}
    (h : Ends (Pinned s (t.mapContext (·.set name o))) V r (act' (t.mapContext (·.set name o)))) :
    Ends (Pinned s t) V r (act'.withEntry name o t) :=
  h.ensuring_right fun _ _ ht => ⟨ht.1, ht.2.set_get?⟩

/-- A context that has only lost some names is restored. -/
lemma restore_left {names : List String} (hu : s.Same u)
    (h : Ends (Pinned (u.mapContext (·.eraseAll names)) s') V
      (act (u.mapContext (·.eraseAll names))) r') :
    Ends (Pinned s s') V (act.ensuring (·.mapContext (·.restore s.context))
      (u.mapContext (·.eraseAll names))) r' :=
  h.ensuring_left fun _ _ ht => ⟨Correspondence.same_of_restore hu ht.1, ht.2⟩

lemma restore_right {names : List String} (hu : s'.Same u)
    (h : Ends (Pinned s (u.mapContext (·.eraseAll names))) V r
      (act' (u.mapContext (·.eraseAll names)))) :
    Ends (Pinned s s') V r (act'.ensuring (·.mapContext (·.restore s'.context))
      (u.mapContext (·.eraseAll names))) :=
  h.ensuring_right fun _ _ ht => ⟨ht.1, Correspondence.same_of_restore hu ht.2⟩

end Run.Ends

end Trace

/-! ### Calls on one side -/

/-- The value is a text. -/
def Value.IsText (out : String) (v : Value) : Prop :=
  v = .string out

section OneSide

variable {act : Run String} {s s' : Renderer} {room : Nat} {invoker : Invoker} {scope : Scope}
  {S : Renderer → Renderer → Prop} {r : EStateM.Result RenderError Renderer String}

/-- A text that is put out is the result of the instruction. -/
lemma ends_display {act' : Run Value} (h : Run.Ends S Value.IsText r (act' s')) :
    Run.Ends S Eq r ((act' >>= display invoker) s') :=
  h.pure_right fun out _ hv => ⟨out, congrArg (display invoker) hv, rfl⟩

/-- A call without arguments of what an entry of the context holds. -/
lemma ends_output {name : String} {v : Value} (hv : s'.context.get? name = some v)
    (h : Run.Ends S Value.IsText r
      (callValue invoker v [] none (Expr.context name).describe s')) :
    Run.Ends S Eq r (exec invoker scope [.output (.call (.context name) [] [])] s') := by
  rw [exec_singleton]
  refine ends_display ?_
  show Run.Ends S _ r (callValue invoker ((s'.context.get? name).getD .undefined) [] none _ s')
  rw [hv]
  exact h

/-- A call without keyword arguments ends as what it invokes does. -/
lemma ends_invoke {what : String} {i : Invocation}
    (h : Run.Ends (Pinned s (s'.calling none)) Eq r (invoker i (s'.calling none))) :
    Run.Ends (Pinned s s') Value.IsText r
      ((Run.nested what (Run.withEntry kwargsName none (invoker i)) >>= fun out =>
        pure (Value.string out)) s') := by
  have hnested : Run.Ends (Pinned s s') Eq r
      (Run.nested what (Run.withEntry kwargsName none (invoker i)) s') :=
    .deeper_right (.withEntry_right h)
  exact hnested.pure_right fun _ out heq => ⟨.string out, rfl, congrArg Value.string heq.symm⟩

/-- A call of a macro without parameters runs its body. -/
lemma ends_callMacro {i : Nat} {m : Macro} {what : String} (hm : m.params = [])
    (h : ∀ inner, room = inner + 1 → Run.Ends (Pinned s (s'.calling none)) Eq r
      (exec (invoke inner) (.empty :: scope) m.body (s'.calling none))) :
    Run.Ends (Pinned s s') Value.IsText r
      (callValue (invoke room) (.closure i m scope) [] none what s') := by
  refine ends_invoke ?_
  cases room with
  | zero => exact .limit_right ""
  | succ room =>
    have hbind (t : Renderer) : bindParams (invoke room) m scope [] t = .ok .empty t := by
      rw [bindParams, hm]
      rfl
    show Run.Ends _ Eq r (invokeMacro (invoke room) m scope [] _)
    rw [invokeMacro_of_ok (hbind _), hm]
    exact .restore_right (.refl _) (h room rfl)

/-- A call of the content of a call block runs it. -/
lemma ends_callBlock {i : Nat} {body : List Instr} {outer : Option Value} {what : String}
    (h : ∀ inner t, room = inner + 1 → t = (s'.calling none).mapContext (·.set callerName outer) →
      Run.Ends (Pinned s t) Eq r (exec (invoke inner) scope body t)) :
    Run.Ends (Pinned s s') Value.IsText r
      (callValue (invoke room) (.block i body outer scope) [] none what s') := by
  refine ends_invoke ?_
  cases room with
  | zero => exact .limit_right ""
  | succ room => exact .withEntry_right (h room _ rfl rfl)

end OneSide

namespace Abstraction

namespace Lawful

variable {A : Abstraction} (hA : A.Lawful)

include hA

section OneSide

variable {s s' : Renderer} {room : Nat} {scope : Scope} {body : List Instr} {name : String}
  {r : EStateM.Result RenderError Renderer String}

/-- A call without keyword arguments takes them away and nothing else. -/
lemma agree_calling (hs : A.Agree s s') : A.Agree s (s'.calling none) := by
  refine hs.except hA.kwargs hA.kwargs_passing (fun x hx => ?_) rfl
  show (s'.context.set kwargsName none).get? x = _
  rw [Context.get?_set, if_neg hx]

/-- A call block of a passing macro runs its content. -/
lemma ends_handed (source : String) (hname : A.passing name) (hs : A.Agree s s')
    (h : ∀ inner t, room = inner + 2 → A.Agree s t →
      Run.Ends (Pinned s t) Eq r (exec (invoke inner) scope body t)) :
    Run.Ends (Pinned s s') Eq r
      (execInstr (invoke room) scope
        (.callBlock body (.call (.context name) [] []) source) s') := by
  let outer := s'.context.get? callerName
  let block := Value.block s'.fresh body outer scope
  let u : Renderer := { s' with fresh := s'.fresh + 1 }
  let w : Renderer := u.mapContext (·.set callerName (some block))
  obtain ⟨i, file, hclosure⟩ := hs.passing name hname
  have hcallee : w.context.get? name = some (.closure i (.passOn name file) []) := by
    show (s'.context.set callerName (some block)).get? name = _
    rw [Context.get?_set, if_neg (hA.ne_caller (hA.passing hname)), hclosure]
  have hcaller : (w.calling none).context.get? callerName = some block := by
    show ((s'.context.set callerName (some block)).set kwargsName none).get? callerName = _
    rw [Context.get?_set, if_neg (by decide), Context.get?_set, if_pos rfl]
  -- the content sees the context as it was, but for the keyword arguments
  have hcontent :
      A.Agree s (((w.calling none).calling none).mapContext (·.set callerName outer)) := by
    refine hs.except hA.kwargs hA.kwargs_passing (fun x hx => ?_) rfl
    show ((((s'.context.set callerName (some block)).set kwargsName none).set kwargsName none).set
      callerName outer).get? x = s'.context.get? x
    rw [Context.get?_set, Context.get?_set, Context.get?_set, if_neg hx, if_neg hx,
      Context.get?_set]
    split
    next heq => exact congrArg s'.context.get? heq
    next => rfl
  have hcall : Run.Ends (Pinned s w) Value.IsText r
      (callValue (invoke room) (.closure i (.passOn name file) []) [] none
        (Expr.context name).describe w) := by
    refine ends_callMacro rfl fun middle hmiddle => ?_
    refine ends_output hcaller (ends_callBlock fun inner t hinner ht => ?_)
    subst ht
    exact h inner _ (by omega) hcontent
  have hwrapped : Run.Ends (Pinned s u) Value.IsText r
      (evalWrapped (invoke room) scope body (.call (.context name) [] []) s') := by
    refine Run.Ends.withEntry_right (t := u) ?_
    show Run.Ends _ _ r
      (callValue (invoke room) ((w.context.get? name).getD .undefined) [] none _ w)
    rw [hcallee]
    exact hcall
  have hrenewed : s'.Same u := ⟨rfl, rfl, rfl⟩
  exact ends_display
    (hwrapped.mono (fun _ _ hv => hv) fun _ _ ht => ⟨ht.1, hrenewed.trans ht.2⟩)

/-- A macro without parameters that is called where it is defined runs its body. -/
lemma ends_extracted (file : String) (hhidden : A.hidden name) (hname : ¬ A.passing name)
    (hs : A.Agree s s')
    (h : ∀ inner t, room = inner + 1 → A.Agree s t →
      Run.Ends (Pinned s t) Eq r (exec (invoke inner) (.empty :: scope) body t)) :
    Run.Ends A.Agree Eq r (exec (invoke room) scope
      [.define (.context name) ⟨name, [], body, file⟩,
        .output (.call (.context name) [] [])] s') := by
  let defined := Value.closure s'.fresh ⟨name, [], body, file⟩ scope
  let u := { s' with fresh := s'.fresh + 1 }.bind (.context name) defined
  have hu : A.Agree s u := by
    refine hs.except hhidden hname (fun x hx => ?_) rfl
    show (s'.context.insert name defined).get? x = _
    rw [Context.get?_insert, if_neg hx]
  rw [Relocation.exec_define]
  have hcall : Run.Ends (Pinned s u) Eq r
      (exec (invoke room) scope [.output (.call (.context name) [] [])] u) := by
    refine ends_output (Context.get?_insert_self s'.context name defined) ?_
    exact ends_callMacro rfl fun inner hroom => h inner _ hroom (hA.agree_calling hu)
  exact hcall.mono (fun _ _ hv => hv) fun _ _ => hu.of_same

end OneSide

end Lawful

/-! ### Both sides -/

/-- From renderers that agree, both computations end alike and leave no trace. -/
def Sim (A : Abstraction) {α β : Type} (V : α → β → Prop) (act : Run α) (act' : Run β) : Prop :=
  ∀ s s', A.Agree s s' → Run.Ends (Pinned s s') V (act s) (act' s')

section Sim

variable {A : Abstraction} {α β γ δ : Type} {V : α → β → Prop} {W : γ → δ → Prop} {act : Run α}
  {act' : Run β}

lemma Sim.pure {a : α} {b : β} (h : V a b) :
    A.Sim V (Pure.pure a : Run α) (Pure.pure b : Run β) :=
  fun _ _ _ => .ok h (.refl _ _)

lemma Sim.throw (e : RenderError) :
    A.Sim V (MonadExcept.throw e : Run α) (MonadExcept.throw e : Run β) :=
  fun _ _ _ => .error rfl (.refl _ _)

lemma Sim.bind {k : α → Run γ} {k' : β → Run δ} (h : A.Sim V act act')
    (hk : ∀ a b, V a b → A.Sim W (k a) (k' b)) : A.Sim W (act >>= k) (act' >>= k') := by
  intro s s' hs
  refine (h s s' hs).bind (fun _ _ ht => ht) fun a b t t' hv ht => ?_
  exact (hk a b hv t t' (hs.of_same ht)).mono (fun _ _ hw => hw) fun _ _ hu => ht.trans hu

end Sim

/-- Computations are compared from renderers that agree. -/
@[reducible]
def comparison (A : Abstraction) : Run.Comparison where
  Holds := A.Sim
  pure := .pure
  bind := .bind

/-- Invocations that correspond, with the keyword arguments that are there when they begin. -/
inductive Invocations (A : Abstraction) (s s' : Renderer) : Invocation → Invocation → Prop
  | call {m m' : Macro} {scope scope' : Scope} {args args' : List Value} : A.Macros m m' →
      A.Scopes scope scope' → List.Forall₂ A.Values args args' →
      Dict.Rel A.Values s.context.kwargs s'.context.kwargs →
      Invocations A s s' (.call m scope args) (.call m' scope' args')
  | block {b b' : List Instr} {o o' : Option Value} {scope scope' : Scope} : A.Code b b' →
      Option.Rel A.Values o o' → A.Scopes scope scope' →
      Invocations A s s' (.block b o scope) (.block b' o' scope')
  | markup {b b' : List Instr} {scope scope' : Scope} : A.Code b b' → A.Scopes scope scope' →
      Invocations A s s' (.markup b scope) (.markup b' scope')

/-- Corresponding invocations end alike and leave no trace. -/
def Carries (A : Abstraction) (invoker invoker' : Invoker) : Prop :=
  ∀ {s s' i i'}, A.Agree s s' → A.Invocations s s' i i' →
    Run.Ends (Pinned s s') Eq (invoker i s) (invoker' i' s')

/-- Corresponding code that defines nothing ends alike and leaves no trace. -/
def Runs (A : Abstraction) (invoker invoker' : Invoker) : Prop :=
  ∀ {scope scope' is is'}, A.Code is is' → A.Scopes scope scope' →
    A.Sim Eq (exec invoker scope is) (exec invoker' scope' is')

namespace Lawful

variable {A : Abstraction} (hA : A.Lawful)

include hA

section Level

variable {invoker invoker' : Invoker} {scope scope' : Scope} (hI : A.Carries invoker invoker')

include hI

/-- Corresponding calls end alike. -/
lemma callValue_sim {target target' : Value} {args args' : List Value}
    {kwargs kwargs' : Option (Dict Value)} (what what' : String) (ht : A.Values target target')
    (hargs : List.Forall₂ A.Values args args')
    (hkwargs : Option.Rel (Dict.Rel A.Values) kwargs kwargs') (hwhat : what = what') :
    A.Sim A.Values (callValue invoker target args kwargs what)
      (callValue invoker' target' args' kwargs' what') := by
  subst hwhat
  have hentry := keywordEntry_rel hkwargs
  have enter {i i' : Invocation} (hi : ∀ s s' : Renderer,
      Dict.Rel A.Values (s.calling kwargs).context.kwargs (s'.calling kwargs').context.kwargs →
      A.Invocations (s.calling kwargs) (s'.calling kwargs') i i') :
      A.Sim A.Values
        (Run.nested what (Run.withEntry kwargsName (kwargs.map .map) (invoker i)) >>=
          fun out => pure (.string out))
        (Run.nested what (Run.withEntry kwargsName (kwargs'.map .map) (invoker' i')) >>=
          fun out => pure (.string out)) := by
    refine .bind (V := Eq) ?_ ?_
    · intro s s' hs
      have hdeeper : A.Agree s.deeper s'.deeper := hs.of_pinned rfl rfl rfl rfl
      have hcalling : A.Agree (s.calling kwargs) (s'.calling kwargs') :=
        hdeeper.set kwargsName hA.kwargs_passing (absurd hA.kwargs)
      have hgiven : Option.Rel A.Values ((s.calling kwargs).context.get? kwargsName)
          ((s'.calling kwargs').context.get? kwargsName) := by
        show Option.Rel A.Values ((s.context.set kwargsName _).get? kwargsName)
          ((s'.context.set kwargsName _).get? kwargsName)
        rw [Context.get?_set, Context.get?_set, if_pos rfl, if_pos rfl]
        exact hentry
      have hinvoked := hI hcalling (hi s s' (Context.kwargs_rel hgiven))
      exact .deeper_left (.deeper_right (.withEntry_left (.withEntry_right hinvoked)))
    · rintro out _ rfl
      exact .pure (.string out)
  cases ht with
  | undefined => exact .pure .undefined
  | nothing => exact .pure .undefined
  | closure _ _ hm hscope => exact enter fun _ _ hk => .call hm hscope hargs hk
  | block _ _ hb ho hscope => exact enter fun _ _ _ => .block hb ho hscope
  | _ => exact .throw _

/-- What evaluation of corresponding expressions rests on. -/
lemma evaluation (hscope : A.Scopes scope scope') :
    Evaluation A.comparison A.Ref A.Values invoker invoker' scope scope' where
  congruence := Value.Likeness.congruence A.Values
  reference he _ _ hs := by
    cases he with
    | param name => exact .ok (Value.Likeness.getD (hscope name)) (.refl _ _)
    | context hn => exact .ok (Value.Likeness.getD (hs.context _ hn)) (.refl _ _)
    | symbol key => exact .ok (Value.Likeness.getD (hs.symbols key)) (.refl _ _)
  call hv hargs hkwargs hc :=
    hA.callValue_sim hI _ _ hv hargs hkwargs (congrArg Expr.describe (eq_of_rel hc))

/-- Corresponding expressions evaluate alike. -/
lemma eval_sim {e e' : Expr} (he : Expr.Rel A.Ref e e') (hscope : A.Scopes scope scope') :
    A.Sim A.Values (eval invoker scope e) (eval invoker' scope' e') :=
  eval_compare (hA.evaluation hI hscope) he

omit hA in
/-- Corresponding values show the same. -/
lemma display_sim {v v' : Value} (hv : A.Values v v') :
    A.Sim Eq (display invoker v) (display invoker' v') := by
  have htext := Value.Likeness.text_eq hv
  cases hv with
  | shown _ hb hscope =>
    intro s s' hs
    have hdeeper : A.Agree s.deeper s'.deeper := hs.of_pinned rfl rfl rfl rfl
    exact .deeper_left (.deeper_right (hI hdeeper (.markup hb hscope)))
  | _ => exact .pure htext

/-- Corresponding call blocks evaluate alike. -/
lemma evalWrapped_sim {body body' : List Instr} {e e' : Expr} (hbody : A.Code body body')
    (he : Expr.Rel A.Ref e e') (hscope : A.Scopes scope scope') :
    A.Sim A.Values (evalWrapped invoker scope body e) (evalWrapped invoker' scope' body' e') := by
  intro s s' hs
  let u : Renderer := { s with fresh := s.fresh + 1 }
  let u' : Renderer := { s' with fresh := s'.fresh + 1 }
  have hu : A.Agree u u' := hs.of_pinned rfl rfl rfl rfl
  have hblock : Option.Rel A.Values
      (some (.block s.fresh body (s.context.get? callerName) scope))
      (some (.block s'.fresh body' (s'.context.get? callerName) scope')) :=
    .some (.block _ _ hbody (hs.context _ hA.caller) hscope)
  have heval := hA.eval_sim hI he hscope _ _ (hA.agree_set hu hA.caller hblock)
  have hrenewed : Pinned s s' u u' := ⟨⟨rfl, rfl, rfl⟩, ⟨rfl, rfl, rfl⟩⟩
  have hwith := Run.Ends.withEntry_left (s := u) (Run.Ends.withEntry_right (t := u') heval)
  exact hwith.mono (fun _ _ hv => hv) fun _ _ ht => hrenewed.trans ht

/-- Corresponding defaults are filled in alike. -/
lemma fillDefaults_sim {ps ps' : List Param} {vars vars' : Dict Value}
    (hps : List.Forall₂ (Param.Rel A.Ref) ps ps') (hvars : Dict.Rel A.Values vars vars')
    (hscope : A.Scopes scope scope') :
    A.Sim (Dict.Rel A.Values) (fillDefaults invoker scope ps vars)
      (fillDefaults invoker' scope' ps' vars') := by
  refine fillDefaults_compare (C := A.comparison) id hps ?_ hvars
  intro p e e' vars vars' _ _ he hvars
  exact ⟨A.Values, hA.eval_sim hI he (hscope.cons hvars), fun _ _ => hvars.insert p.name⟩

/-- Corresponding macros bind their parameters alike, if the keyword arguments correspond. -/
lemma bindParams_sim {m m' : Macro} {args args' : List Value} {s s' : Renderer}
    (hm : A.Macros m m') (hargs : List.Forall₂ A.Values args args')
    (hscope : A.Scopes scope scope') (hs : A.Agree s s')
    (hkwargs : Dict.Rel A.Values s.context.kwargs s'.context.kwargs) :
    Run.Ends (Pinned s s') (Dict.Rel A.Values) (bindParams invoker m scope args s)
      (bindParams invoker' m' scope' args' s') := by
  have hfirst : Dict.Rel A.Values (.ofList (positional m.params args))
      (.ofList (positional m'.params args')) :=
    Dict.rel_ofList (positional_rel hm.params hargs)
  refine (hA.fillDefaults_sim hI hm.params hfirst hscope s s' hs).bind (fun _ _ ht => ht) ?_
  intro vars vars' t t' hvars ht
  rw [← ht.1.context, ← ht.2.context] at hkwargs
  exact .ok (applyKeywords_rel hkwargs hm.params hvars) ht

/-- Corresponding macros are invoked alike, if their bodies are run alike. -/
lemma invokeMacro_sim {m m' : Macro} {args args' : List Value} {s s' : Renderer}
    (hruns : A.Runs invoker invoker') (hm : A.Macros m m')
    (hargs : List.Forall₂ A.Values args args') (hscope : A.Scopes scope scope') (hs : A.Agree s s')
    (hkwargs : Dict.Rel A.Values s.context.kwargs s'.context.kwargs) :
    Run.Ends (Pinned s s') Eq (invokeMacro invoker m scope args s)
      (invokeMacro invoker' m' scope' args' s') := by
  have hbind := hA.bindParams_sim hI hm hargs hscope hs hkwargs
  refine invokeMacro_matches hbind hm.params (fun _ _ ht => ht) ?_
  intro vars vars' t t' _ hvars ht
  have hfree : ∀ k ∈ m.params.map (·.name), ¬ A.hidden k := List.forall_mem_map.2 hm.free
  have hbody := hruns hm.body (hscope.cons hvars) _ _ (hA.agree_eraseAll (hs.of_same ht) hfree)
  exact Run.Ends.restore_left ht.1 (Run.Ends.restore_right ht.2 hbody)

/-- Corresponding invocations are carried out alike, if code is run alike. -/
lemma carryOut_sim (hruns : A.Runs invoker invoker') :
    A.Carries (carryOut invoker) (carryOut invoker') := by
  intro s s' i i' hs hi
  cases hi with
  | call hm hscope hargs hkwargs => exact hA.invokeMacro_sim hI hruns hm hargs hscope hs hkwargs
  | block hb ho hscope =>
    have hbody := hruns hb hscope _ _ (hA.agree_set hs hA.caller ho)
    exact .withEntry_left (.withEntry_right hbody)
  | markup hb hscope => exact hruns hb hscope _ _ hs

end Level

/-- Corresponding code is run alike with given rooms, if invocations are carried out alike and code
is run alike with two rooms less on the second side, which a passing macro takes. -/
lemma exec_sim {room room' : Nat} (hI : A.Carries (invoke room) (invoke room'))
    (hless : ∀ inner, room' = inner + 2 → A.Runs (invoke room) (invoke inner)) :
    A.Runs (invoke room) (invoke room') := by
  intro scope scope' is is' h hscope
  induction h with
  | nil => exact .pure rfl
  | text str =>
    rw [exec_singleton, exec_singleton]
    exact .pure rfl
  | output he =>
    rw [exec_singleton, exec_singleton]
    exact (hA.eval_sim hI he hscope).bind fun _ _ => display_sim hI
  | callBlock _ _ hbody he _ =>
    rw [exec_singleton, exec_singleton]
    exact (hA.evalWrapped_sim hI hbody he hscope).bind fun _ _ => display_sim hI
  | handed source hname hbody _ =>
    intro s s' hs
    rw [exec_singleton]
    exact hA.ends_handed source hname hs fun inner t hroom ht =>
      hless inner hroom hbody hscope s t ht
  | append _ _ ih ih' =>
    rw [exec_append, exec_append]
    exact A.comparison.concat ih ih'

/-- **Corresponding code that defines nothing ends alike**, whatever room there is on the two
sides. -/
lemma flat_sim (room room' : Nat) :
    A.Carries (invoke room) (invoke room') ∧ A.Runs (invoke room) (invoke room') := by
  induction room' using Nat.strongRecOn generalizing room with
  | ind room' ih =>
    have hI : A.Carries (invoke room) (invoke room') := by
      cases room with
      | zero => exact fun _ _ => .limit_left ""
      | succ room =>
        cases room' with
        | zero => exact fun _ _ => .limit_right ""
        | succ room' =>
          obtain ⟨hcarries, hruns⟩ := ih room' (Nat.lt_succ_self room') room
          exact hA.carryOut_sim hcarries hruns
    -- the content of a passing macro is run with the same room on the first side
    exact ⟨hI, hA.exec_sim hI fun inner hroom => (ih inner (by omega) room).2⟩

/-! ### The top level -/

/-- **Corresponding code at the top level ends alike** and leaves renderers that agree. -/
lemma exec_topLevel (room room' : Nat) {scope scope' : Scope} {is is' : List Instr}
    (h : A.TopLevel is is') (hscope : A.Scopes scope scope') {s s' : Renderer}
    (hs : A.Agree s s') :
    Run.Ends A.Agree Eq (exec (invoke room) scope is s) (exec (invoke room') scope' is' s') := by
  induction h generalizing s s' with
  | flat hcode =>
    have hflat := (hA.flat_sim room room').2 hcode hscope s s' hs
    exact hflat.mono (fun _ _ hout => hout) fun _ _ => hs.of_same
  | define htarget hm =>
    rw [exec_singleton, exec_singleton]
    have hfresh : A.Agree { s with fresh := s.fresh + 1 } { s' with fresh := s'.fresh + 1 } :=
      hs.of_pinned rfl rfl rfl rfl
    exact .ok rfl (hA.agree_bind hfresh htarget (.closure _ _ hm hscope))
  | @bindSpace handle _ _ _ _ hhandle _ hmarkup ih =>
    rw [exec_singleton, exec_singleton, execInstr, execInstr, Run.modify_bind, Run.modify_bind]
    refine (ih (hA.agree_openSpace hs hhandle)).bind (fun _ _ ht => ht) ?_
    intro out out' t t' hout ht
    exact .ok hout (hA.agree_closeSpace ht hhandle hmarkup hscope)
  | extracted file hhidden hname hbody =>
    exact hA.ends_extracted file hhidden hname hs fun inner t _ ht =>
      (hA.flat_sim room inner).2 hbody hscope.empty_cons s t ht
  | append _ _ ih ih' =>
    rw [exec_append, exec_append]
    refine (ih hs).bind (fun _ _ ht => ht) fun out out' t t' hout ht => ?_
    refine (ih' ht).bind (fun _ _ hu => hu) fun more more' u u' hmore hu => ?_
    exact .ok (by rw [hout, hmore]) hu

end Lawful

end Abstraction

end Stencil
