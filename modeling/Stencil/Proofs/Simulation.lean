import Stencil.Proofs.Relation.Code
import Stencil.Proofs.Snapshot

/-!
Two runs side by side. `Run.Matches X S E V` says of the ends of two computations that both have
given results related by `V` or both have failed with errors related by `E`, in renderers related by
`S`. What it excuses is an error of one side for which the other side need not be looked at
(`Run.Excuse`). `Run.Sim S E V` says of two computations that, from renderers related by `S`, they
match without an excuse and end in renderers related by `S` again.

However computations are compared (`Run.Comparison`), `eval_compare` reduces evaluation to
references and calls: everything else in an expression only puts values together. The parameters of
a call get related values from related arguments (`positional_rel`, `applyKeywords_rel`), filling in
defaults is reduced to evaluating one (`fillDefaults_compare`), and invoking a macro to binding its
parameters and running its body (`invokeMacro_matches`).
-/

namespace Stencil

/-! ### Computations side by side -/

namespace Run

/-- The errors for which two computations are not compared, if the first one fails with one of the
first kind, or the second one with one of the second kind. -/
structure Excuse where
  left : RenderError → Prop
  right : RenderError → Prop

/-- No error excuses. -/
def Excuse.none : Excuse := ⟨fun _ => False, fun _ => False⟩

/-- The limit of calls under way excuses on the sides for which the propositions hold. -/
def Excuse.limit (left right : Prop) : Excuse where
  left e := left ∧ ∃ what, e = .callDepth what
  right e := right ∧ ∃ what, e = .callDepth what

variable {α β γ δ : Type} {X : Excuse} {S S₁ : Renderer → Renderer → Prop}
  {E : RenderError → RenderError → Prop} {V : α → β → Prop} {W : γ → δ → Prop} {act : Run α}
  {act' : Run β} {s s' : Renderer} {r : EStateM.Result RenderError Renderer α}
  {r' : EStateM.Result RenderError Renderer β}

/-- Both computations have given related results, or both have failed with related errors, unless
one of them has failed with an error that excuses. -/
inductive Matches (X : Excuse) (S : Renderer → Renderer → Prop)
    (E : RenderError → RenderError → Prop) (V : α → β → Prop) :
    EStateM.Result RenderError Renderer α → EStateM.Result RenderError Renderer β → Prop
  | ok {a : α} {b : β} {t t' : Renderer} : V a b → S t t' → Matches X S E V (.ok a t) (.ok b t')
  | error {e e' : RenderError} {t t' : Renderer} : E e e' → S t t' →
      Matches X S E V (.error e t) (.error e' t')
  | left {e : RenderError} {t : Renderer} {r' : EStateM.Result RenderError Renderer β} :
      X.left e → Matches X S E V (.error e t) r'
  | right {e' : RenderError} {r : EStateM.Result RenderError Renderer α} {t' : Renderer} :
      X.right e' → Matches X S E V r (.error e' t')

namespace Matches

lemma mono {V' : α → β → Prop} (h : Matches X S E V r r') (hV : ∀ a b, V a b → V' a b)
    (hS : ∀ t t', S t t' → S₁ t t') : Matches X S₁ E V' r r' := by
  cases h with
  | ok hv ht => exact .ok (hV _ _ hv) (hS _ _ ht)
  | error he ht => exact .error he (hS _ _ ht)
  | left hx => exact .left hx
  | right hx => exact .right hx

/-- What comes after matches if it does so after related results. -/
lemma bind {k : α → Run γ} {k' : β → Run δ} (h : Matches X S E V (act s) (act' s'))
    (hS : ∀ t t', S t t' → S₁ t t')
    (hk : ∀ a b t t', V a b → S t t' → Matches X S₁ E W (k a t) (k' b t')) :
    Matches X S₁ E W ((act >>= k) s) ((act' >>= k') s') := by
  generalize hr : act s = r at h
  generalize hr' : act' s' = r' at h
  cases h with
  | ok hv ht =>
    rw [bind_of_ok hr, bind_of_ok hr']
    exact hk _ _ _ _ hv ht
  | error he ht =>
    rw [bind_of_error hr, bind_of_error hr']
    exact .error he (hS _ _ ht)
  | left hx =>
    rw [bind_of_error hr]
    exact .left hx
  | right hx =>
    rw [bind_of_error hr']
    exact .right hx

/-- The second computation may go on to put its result into another form. -/
lemma pure_right {U : α → γ → Prop} {k : β → Run γ} (h : Matches X S E V r (act' s'))
    (hk : ∀ a b, V a b → ∃ c, k b = Pure.pure c ∧ U a c) :
    Matches X S E U r ((act' >>= k) s') := by
  generalize hr' : act' s' = r' at h
  cases h with
  | ok hv ht =>
    obtain ⟨c, hpure, hu⟩ := hk _ _ hv
    rw [bind_of_ok hr', hpure]
    exact .ok hu ht
  | error he ht =>
    rw [bind_of_error hr']
    exact .error he ht
  | left hx => exact .left hx
  | right hx =>
    rw [bind_of_error hr']
    exact .right hx

/-- What the first computation does in any case may change the relation of the renderers. -/
lemma ensuring_left {after : Renderer → Renderer} (h : Matches X S E V (act s) r')
    (hS : ∀ t t', S t t' → S₁ (after t) t') : Matches X S₁ E V (act.ensuring after s) r' := by
  rw [Run.ensuring]
  generalize act s = r at h
  cases h with
  | ok hv ht => exact .ok hv (hS _ _ ht)
  | error he ht => exact .error he (hS _ _ ht)
  | left hx => exact .left hx
  | right hx => exact .right hx

/-- So may what the second one does. -/
lemma ensuring_right {after' : Renderer → Renderer} (h : Matches X S E V r (act' s'))
    (hS : ∀ t t', S t t' → S₁ t (after' t')) : Matches X S₁ E V r (act'.ensuring after' s') := by
  rw [Run.ensuring]
  generalize act' s' = r' at h
  cases h with
  | ok hv ht => exact .ok hv (hS _ _ ht)
  | error he ht => exact .error he (hS _ _ ht)
  | left hx => exact .left hx
  | right hx => exact .right hx

lemma ensuring {after after' : Renderer → Renderer} (h : Matches X S E V (act s) (act' s'))
    (hS : ∀ t t', S t t' → S₁ (after t) (after' t')) :
    Matches X S₁ E V (act.ensuring after s) (act'.ensuring after' s') := by
  have hleft : Matches X (fun u t' => S₁ u (after' t')) E V (act.ensuring after s) (act' s') :=
    h.ensuring_left hS
  exact hleft.ensuring_right fun _ _ hu => hu

/-- An invocation that only the first side has may meet the limit. -/
lemma nested_left {left right : Prop} {what : String} (hleft : left)
    (h : Matches (.limit left right) S E V (act s.deeper) r')
    (hS : ∀ t t', S t t' → S₁ { t with depth := t.depth - 1 } t') :
    Matches (.limit left right) S₁ E V (act.nested what s) r' := by
  rw [nested]
  split
  · exact .left ⟨hleft, what, rfl⟩
  · exact h.ensuring_left hS

/-- So may one that only the second side has. -/
lemma nested_right {left right : Prop} {what : String} (hright : right)
    (h : Matches (.limit left right) S E V r (act' s'.deeper))
    (hS : ∀ t t', S t t' → S₁ t { t' with depth := t'.depth - 1 }) :
    Matches (.limit left right) S₁ E V r (act'.nested what s') := by
  rw [nested]
  split
  · exact .right ⟨hright, what, rfl⟩
  · exact h.ensuring_right hS

/-- Where values and errors are the same on both sides, and no error excuses, the outcome is the
same. -/
lemma outcome_eq {act act' : Run α} (h : Matches X S Eq Eq (act s) (act' s'))
    (hleft : ∀ e, X.left e → act.outcome s ≠ .error e)
    (hright : ∀ e, X.right e → act'.outcome s' ≠ .error e) : act.outcome s = act'.outcome s' := by
  rw [outcome, outcome] at *
  generalize act s = r at *
  generalize act' s' = r' at *
  cases h with
  | ok hv _ => rw [hv]
  | error he _ => rw [he]
  | left hx => exact absurd rfl (hleft _ hx)
  | right hx => exact absurd rfl (hright _ hx)

/-- Without an excuse the computations have both given a result or both failed. -/
@[elab_as_elim]
lemma strict {motive : ∀ r r', Matches (α := α) (β := β) .none S E V r r' → Prop}
    (ok : ∀ {a b t t'} (hv : V a b) (ht : S t t'), motive _ _ (.ok hv ht))
    (error : ∀ {e e' t t'} (he : E e e') (ht : S t t'), motive _ _ (.error he ht))
    (h : Matches .none S E V r r') : motive r r' h := by
  cases h with
  | ok hv ht => exact ok hv ht
  | error he ht => exact error he ht
  | left hx => exact hx.elim
  | right hx => exact hx.elim

lemma same_outcome {act act' : Run α} (h : Matches .none S Eq Eq (act s) (act' s')) :
    act.outcome s = act'.outcome s' :=
  h.outcome_eq (fun _ hx => hx.elim) fun _ hx => hx.elim

/-- The renderers at the end are related. -/
lemma final (h : Matches .none S E V (act s) (act' s')) : S (act.final s) (act'.final s') := by
  rw [Run.final, Run.final]
  generalize act s = r at h ⊢
  generalize act' s' = r' at h ⊢
  cases h using strict with
  | ok _ ht => exact ht
  | error _ ht => exact ht

end Matches

/-- From related renderers both computations give related results, or both fail. -/
def Sim (S : Renderer → Renderer → Prop) (E : RenderError → RenderError → Prop) (V : α → β → Prop)
    (act : Run α) (act' : Run β) : Prop :=
  ∀ s s', S s s' → Matches .none S E V (act s) (act' s')

namespace Sim

lemma pure {a : α} {b : β} (h : V a b) : Sim S E V (Pure.pure a : Run α) (Pure.pure b : Run β) :=
  fun _ _ hs => .ok h hs

lemma throw {e e' : RenderError} (h : E e e') :
    Sim S E V (MonadExcept.throw e : Run α) (MonadExcept.throw e' : Run β) :=
  fun _ _ hs => .error h hs

lemma bind {k : α → Run γ} {k' : β → Run δ} (h : Sim S E V act act')
    (hk : ∀ a b, V a b → Sim S E W (k a) (k' b)) : Sim S E W (act >>= k) (act' >>= k') :=
  fun s s' hs => (h s s' hs).bind (fun _ _ ht => ht) fun a b t t' hv ht => hk a b hv t t' ht

/-- The results are related, and the first one is a result of the first computation. -/
lemma and_ok (h : Sim S E V act act') :
    Sim S E (fun a b => V a b ∧ ∃ s t, act s = .ok a t) act act' := by
  intro s s' hs
  have hact := h s s' hs
  generalize hr : act s = r at hact ⊢
  generalize act' s' = r' at hact ⊢
  cases hact using Matches.strict with
  | ok hv ht => exact .ok ⟨hv, s, _, hr⟩ ht
  | error he ht => exact .error he ht

/-- A computation beside itself ends with what is related to itself. -/
lemma of_ok {V : α → α → Prop} {act : Run α} (h : Sim S E V act act) {s t : Renderer} {a : α}
    (hs : S s s) (hr : act s = .ok a t) : V a a ∧ S t t := by
  have hact := h s s hs
  rw [hr] at hact
  cases hact with
  | ok hv ht => exact ⟨hv, ht⟩

end Sim

end Run

/-! ### Evaluation side by side -/

/-- A relation of values that no expression can leave. -/
structure Value.Congruence (V : Value → Value → Prop) : Prop where
  literal : ∀ l : Literal, V l.value l.value
  member : ∀ {v w}, V v w → ∀ name, V (v.member name) (w.member name)
  index : ∀ {v w p q}, V v w → V p q → V (v.index p) (w.index q)
  list : ∀ {vs ws}, List.Forall₂ V vs ws → V (.list vs) (.list ws)
  map : ∀ {d e}, List.Forall₂ (Dict.EntryRel V) d e → V (.map (.ofList d)) (.map (.ofList e))

lemma Value.Likeness.congruence (V : Value → Value → Prop) [Value.Likeness V] :
    Value.Congruence V where
  literal := Value.Likeness.literal
  member := Value.Likeness.member
  index := Value.Likeness.index
  list := Value.Likeness.list
  map h := Value.Likeness.map (Dict.rel_ofList h)

/-- What it takes to compare computations step by step. -/
structure Run.Comparison where
  /-- The computations compare, and so do the results they give. -/
  Holds : {α β : Type} → (α → β → Prop) → Run α → Run β → Prop
  pure : ∀ {α β : Type} {V : α → β → Prop} {a : α} {b : β}, V a b →
    Holds V (Pure.pure a) (Pure.pure b)
  bind : ∀ {α β γ δ : Type} {V : α → β → Prop} {W : γ → δ → Prop} {act : Run α} {act' : Run β}
    {k : α → Run γ} {k' : β → Run δ}, Holds V act act' → (∀ a b, V a b → Holds W (k a) (k' b)) →
    Holds W (act >>= k) (act' >>= k')

/-- What is put out one after the other compares if both parts do. -/
lemma Run.Comparison.concat (C : Run.Comparison) {act act' rest rest' : Run String}
    (hact : C.Holds Eq act act') (hrest : C.Holds Eq rest rest') :
    C.Holds Eq (act >>= fun out => rest >>= fun more => Pure.pure (out ++ more))
      (act' >>= fun out => rest' >>= fun more => Pure.pure (out ++ more)) :=
  C.bind hact fun _ _ hout => C.bind hrest fun _ _ hmore => C.pure (by rw [hout, hmore])

/-- Computations that end alike. -/
@[reducible]
def Run.Comparison.sim (S : Renderer → Renderer → Prop) (E : RenderError → RenderError → Prop) :
    Run.Comparison where
  Holds V := Run.Sim S E V
  pure := .pure
  bind := .bind

/-- What evaluation in two scopes by two invokers rests on: references and calls. -/
structure Evaluation (C : Run.Comparison) (ref : Expr → Expr → Prop) (V : Value → Value → Prop)
    (invoker invoker' : Invoker) (scope scope' : Scope) : Prop where
  congruence : Value.Congruence V
  reference : ∀ {e e'}, ref e e' → C.Holds V (eval invoker scope e) (eval invoker' scope' e')
  call : ∀ {v v' args args' kwargs kwargs' c c'}, V v v' → List.Forall₂ V args args' →
    Option.Rel (Dict.Rel V) kwargs kwargs' → Expr.Rel ref c c' →
    C.Holds V (callValue invoker v args kwargs c.describe)
      (callValue invoker' v' args' kwargs' c'.describe)

/-- What it rests on that both evaluations end alike. -/
abbrev EvalSim (ref : Expr → Expr → Prop) (S : Renderer → Renderer → Prop)
    (E : RenderError → RenderError → Prop) (V : Value → Value → Prop) (invoker invoker' : Invoker)
    (scope scope' : Scope) : Prop :=
  Evaluation (.sim S E) ref V invoker invoker' scope scope'

section Evaluation

variable {C : Run.Comparison} {ref : Expr → Expr → Prop} {V : Value → Value → Prop}
  {invoker invoker' : Invoker} {scope scope' : Scope}

/-- The keyword arguments of related calls are related, also if there are none. -/
lemma keywords_rel {ks ks' : List (String × Expr)} (hks : Expr.EntriesRel ref ks ks')
    {d d' : List (String × Value)} (hd : List.Forall₂ (Dict.EntryRel V) d d') :
    Option.Rel (Dict.Rel V) (if ks.isEmpty then none else some (.ofList d))
      (if ks'.isEmpty then none else some (.ofList d')) := by
  rw [hks.isEmpty_eq]
  split
  · exact .none
  · exact .some (Dict.rel_ofList hd)

mutual

/-- Expressions compare if references and calls do. -/
lemma eval_compare (H : Evaluation C ref V invoker invoker' scope scope') :
    ∀ {e e' : Expr}, Expr.Rel ref e e' →
      C.Holds V (eval invoker scope e) (eval invoker' scope' e')
  | _, _, .reference h => H.reference h
  | _, _, .literal l => C.pure (H.congruence.literal l)
  | _, _, .member name ht =>
    C.bind (eval_compare H ht) fun _ _ hv => C.pure (H.congruence.member hv name)
  | _, _, .index ht hp =>
    C.bind (eval_compare H ht) fun _ _ hv => C.bind (eval_compare H hp) fun _ _ hq =>
      C.pure (H.congruence.index hv hq)
  | _, _, .list hes =>
    C.bind (evalItems_compare H hes) fun _ _ hvs => C.pure (H.congruence.list hvs)
  | _, _, .map hes =>
    C.bind (evalEntries_compare H hes) fun _ _ hd => C.pure (H.congruence.map hd)
  | _, _, .call hc has hks =>
    C.bind (eval_compare H hc) fun _ _ hv => C.bind (evalItems_compare H has) fun _ _ hargs =>
      C.bind (evalEntries_compare H hks) fun _ _ hd => H.call hv hargs (keywords_rel hks hd) hc

lemma evalItems_compare (H : Evaluation C ref V invoker invoker' scope scope') :
    ∀ {es es' : List Expr}, Expr.ItemsRel ref es es' →
      C.Holds (List.Forall₂ V) (evalItems invoker scope es) (evalItems invoker' scope' es')
  | _, _, .nil => C.pure .nil
  | _, _, .cons he hes =>
    C.bind (eval_compare H he) fun _ _ hv => C.bind (evalItems_compare H hes) fun _ _ hvs =>
      C.pure (.cons hv hvs)

lemma evalEntries_compare (H : Evaluation C ref V invoker invoker' scope scope') :
    ∀ {es es' : List (String × Expr)}, Expr.EntriesRel ref es es' →
      C.Holds (List.Forall₂ (Dict.EntryRel V)) (evalEntries invoker scope es)
        (evalEntries invoker' scope' es')
  | _, _, .nil => C.pure .nil
  | _, _, .cons k he hes =>
    C.bind (eval_compare H he) fun _ _ hv => C.bind (evalEntries_compare H hes) fun _ _ hd =>
      C.pure (.cons (.mk k hv) hd)

end

variable {S : Renderer → Renderer → Prop} {E : RenderError → RenderError → Prop}
  (H : EvalSim ref S E V invoker invoker' scope scope')

include H

/-- Expressions evaluate alike if references and calls do. -/
lemma eval_sim {e e' : Expr} (he : Expr.Rel ref e e') :
    Run.Sim S E V (eval invoker scope e) (eval invoker' scope' e') :=
  eval_compare H he

lemma evalItems_sim {es es' : List Expr} (hes : Expr.ItemsRel ref es es') :
    Run.Sim S E (List.Forall₂ V) (evalItems invoker scope es) (evalItems invoker' scope' es') :=
  evalItems_compare H hes

lemma evalEntries_sim {es es' : List (String × Expr)} (hes : Expr.EntriesRel ref es es') :
    Run.Sim S E (List.Forall₂ (Dict.EntryRel V)) (evalEntries invoker scope es)
      (evalEntries invoker' scope' es') :=
  evalEntries_compare H hes

end Evaluation

/-! ### Parameters side by side -/

section Parameters

variable {V : Value → Value → Prop} [Value.Likeness V] {ref : Expr → Expr → Prop}
  {ps ps' : List Param}

/-- Parameters of the same names get related arguments. -/
lemma positional_rel (hps : List.Forall₂ (Param.Rel ref) ps ps') {args args' : List Value}
    (hargs : List.Forall₂ V args args') :
    List.Forall₂ (Dict.EntryRel V) (positional ps args) (positional ps' args') := by
  induction hps generalizing args args' with
  | nil => exact .nil
  | @cons p p' ps ps' hp _ ih =>
    cases hargs with
    | nil =>
      rw [positional, positional, ← hp.name]
      exact .cons (.mk _ Value.Likeness.undefined) (ih .nil)
    | cons hv hvs =>
      rw [positional, positional, ← hp.name]
      exact .cons (.mk _ hv) (ih hvs)

/-- Parameters of the same names get related keyword arguments. -/
lemma applyKeywords_rel {kwargs kwargs' vars vars' : Dict Value}
    (hkwargs : Dict.Rel V kwargs kwargs') (hps : List.Forall₂ (Param.Rel ref) ps ps')
    (hvars : Dict.Rel V vars vars') :
    Dict.Rel V (applyKeywords kwargs ps vars) (applyKeywords kwargs' ps' vars') := by
  induction hps generalizing vars vars' with
  | nil => exact hvars
  | @cons p p' ps ps' hp _ ih =>
    have hget := hkwargs.get? p.name
    rw [applyKeywords, applyKeywords, ← hp.name]
    cases hk : kwargs.get? p.name <;> cases hk' : kwargs'.get? p.name <;> rw [hk, hk'] at hget
    · exact ih hvars
    · cases hget
    · cases hget
    · obtain ⟨hv⟩ := hget
      dsimp only
      rw [← Value.Likeness.isUndefined_eq hv]
      split
      · exact ih hvars
      · exact ih (hvars.insert p.name hv)

/-- The entries for the keyword arguments of related calls are related. -/
lemma keywordEntry_rel {kwargs kwargs' : Option (Dict Value)}
    (h : Option.Rel (Dict.Rel V) kwargs kwargs') :
    Option.Rel V (kwargs.map .map) (kwargs'.map .map) := by
  cases h with
  | none => exact .none
  | some h => exact .some (Value.Likeness.map h)

/-- Filling in defaults compares if the evaluation of a default does, as long as its value keeps the
parameters in the relation `R`. -/
lemma fillDefaults_compare {C : Run.Comparison} {invoker invoker' : Invoker} {scope scope' : Scope}
    {R : Dict Value → Dict Value → Prop} (hR : ∀ {vars vars'}, R vars vars' → Dict.Rel V vars vars')
    (hps : List.Forall₂ (Param.Rel ref) ps ps')
    (hdefault : ∀ {p e e' vars vars'}, p ∈ ps → p.default = some e → Expr.Rel ref e e' →
      R vars vars' → ∃ W : Value → Value → Prop,
        C.Holds W (eval invoker (vars :: scope) e) (eval invoker' (vars' :: scope') e') ∧
        ∀ v v', W v v' → R (vars.insert p.name v) (vars'.insert p.name v'))
    {vars vars' : Dict Value} (hvars : R vars vars') :
    C.Holds R (fillDefaults invoker scope ps vars) (fillDefaults invoker' scope' ps' vars') := by
  induction hps generalizing vars vars' with
  | nil => exact C.pure hvars
  | @cons p p' ps ps' hp _ ih =>
    have hrest {vars vars' : Dict Value} (hvars : R vars vars') :
        C.Holds R (fillDefaults invoker scope ps vars) (fillDefaults invoker' scope' ps' vars') :=
      ih (fun hp => hdefault (List.mem_cons_of_mem _ hp)) hvars
    have hsame := hp.default
    rw [fillDefaults, fillDefaults, ← hp.name,
      ← Value.Likeness.isUndefined_eq (Value.Likeness.getD ((hR hvars).get? p.name))]
    cases hd : p.default <;> cases hd' : p'.default <;> rw [hd, hd'] at hsame
    · exact hrest hvars
    · cases hsame
    · cases hsame
    · obtain ⟨he⟩ := hsame
      obtain ⟨W, heval, hinsert⟩ := hdefault List.mem_cons_self hd he hvars
      dsimp only
      split
      · exact C.bind heval fun v v' hv => hrest (hinsert v v' hv)
      · exact hrest hvars

/-- The keyword arguments of the calls under way are related. -/
lemma Context.kwargs_rel {c c' : Context}
    (h : Option.Rel V (c.get? kwargsName) (c'.get? kwargsName)) :
    Dict.Rel V c.kwargs c'.kwargs := by
  rw [Context.kwargs, Context.kwargs]
  generalize c.get? kwargsName = o at h ⊢
  generalize c'.get? kwargsName = o' at h ⊢
  cases h with
  | none => exact Dict.rel_empty
  | some hv =>
    cases Value.Likeness.shape hv with
    | map hd => exact hd
    | _ => exact Dict.rel_empty

end Parameters

section Macros

variable {ref : Expr → Expr → Prop}

/-- **Macros are invoked alike** if they bind their parameters alike and then run their bodies
alike. -/
lemma invokeMacro_matches {X : Run.Excuse} {S S₁ : Renderer → Renderer → Prop}
    {E : RenderError → RenderError → Prop} {R : Dict Value → Dict Value → Prop}
    {invoker invoker' : Invoker} {m m' : Macro} {scope scope' : Scope} {args args' : List Value}
    {s s' : Renderer} (hbind : Run.Matches X S E R (bindParams invoker m scope args s)
      (bindParams invoker' m' scope' args' s'))
    (hps : List.Forall₂ (Param.Rel ref) m.params m'.params) (hS : ∀ t t', S t t' → S₁ t t')
    (hbody : ∀ {vars vars' t t'}, bindParams invoker m scope args s = .ok vars t → R vars vars' →
      S t t' → Run.Matches X S₁ E Eq
        ((exec invoker (vars :: scope) m.body).ensuring (·.mapContext (·.restore s.context))
          (t.mapContext (·.eraseAll (m.params.map (·.name)))))
        ((exec invoker' (vars' :: scope') m'.body).ensuring (·.mapContext (·.restore s'.context))
          (t'.mapContext (·.eraseAll (m.params.map (·.name)))))) :
    Run.Matches X S₁ E Eq (invokeMacro invoker m scope args s)
      (invokeMacro invoker' m' scope' args' s') := by
  generalize hr : bindParams invoker m scope args s = r at hbind hbody
  generalize hr' : bindParams invoker' m' scope' args' s' = r' at hbind
  cases hbind with
  | ok hvars ht =>
    rw [invokeMacro_of_ok hr, invokeMacro_of_ok hr', ← Param.Rel.map_name_eq hps]
    exact hbody rfl hvars ht
  | error he ht =>
    rw [invokeMacro_of_error hr, invokeMacro_of_error hr']
    exact .error he (hS _ _ ht)
  | left hx =>
    rw [invokeMacro_of_error hr]
    exact .left hx
  | right hx =>
    rw [invokeMacro_of_error hr']
    exact .right hx

end Macros

end Stencil
