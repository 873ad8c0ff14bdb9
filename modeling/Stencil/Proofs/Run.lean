import Stencil.Render
import Mathlib.Tactic.Lemma

/-!
Computations on a renderer, apart from what they compute. `Run.final` is the renderer a computation
ends with and `Run.outcome` what it gives, whether it fails or not. A computation **keeps** a
property of renderers (`Run.Keeps`) if it ends with the property whenever it starts with it, and so
do a failing computation and the sequel of another one. `eval_keeps` reduces evaluation to calls:
an expression keeps every property that calls keep, since nothing else in it changes the renderer.
-/

namespace Stencil

namespace SymbolTable

/-- Inserting changes the view at the place and nowhere else. -/
lemma get?_insert (t : SymbolTable) (key x : Symbol) (v : Value) :
    (t.insert key v).get? x = if key = x then some v else t.get? x := by
  rw [get?, insert, List.find?_cons]
  by_cases h : key = x
  · simp [h]
  · simp only [h, decide_false, if_false]
    rw [List.find?_filter]
    congr 2
    funext e
    by_cases hx : e.1 = x <;> simp [hx, Ne.symm h]

end SymbolTable

/-- The renderer with one invocation more under way. -/
def Renderer.deeper (s : Renderer) : Renderer :=
  { s with depth := s.depth + 1 }

namespace Run

variable {α β : Type}

/-- The renderer a computation ends with, whether it has failed or not. -/
def final (act : Run α) (s : Renderer) : Renderer :=
  match act s with
  | .ok _ t => t
  | .error _ t => t

/-- What a computation gives: a result or an error. -/
def outcome (act : Run α) (s : Renderer) : Except RenderError α :=
  match act s with
  | .ok a _ => .ok a
  | .error e _ => .error e

lemma final_of_ok {act : Run α} {s t : Renderer} {a : α} (h : act s = .ok a t) :
    act.final s = t := by
  rw [final, h]

lemma final_of_error {act : Run α} {s t : Renderer} {e : RenderError} (h : act s = .error e t) :
    act.final s = t := by
  rw [final, h]

/-- A computation goes on if it has not failed. -/
lemma bind_of_ok {act : Run α} {k : α → Run β} {s t : Renderer} {a : α} (h : act s = .ok a t) :
    (act >>= k) s = k a t := by
  show EStateM.bind act k s = k a t
  rw [EStateM.bind, h]

/-- A failed computation is not gone on with. -/
lemma bind_of_error {act : Run α} {k : α → Run β} {s t : Renderer} {e : RenderError}
    (h : act s = .error e t) : (act >>= k) s = .error e t := by
  show EStateM.bind act k s = .error e t
  rw [EStateM.bind, h]

/-- Looking at the renderer leaves it as it is. -/
lemma get_bind (k : Renderer → Run β) (s : Renderer) : (get >>= k) s = k s s := rfl

/-- Changing the renderer does not fail. -/
lemma modify_bind (f : Renderer → Renderer) (act : Run β) (s : Renderer) :
    (modify f >>= fun _ => act) s = act (f s) := rfl

/-- What is done to a result does not concern the renderer. -/
lemma final_bind_pure (f : α → β) (act : Run α) (s : Renderer) :
    (act >>= fun a => Pure.pure (f a)).final s = act.final s := by
  cases h : act s with
  | ok a t => rw [final_of_ok h, final, bind_of_ok h]; rfl
  | error e t => rw [final_of_error h, final_of_error (bind_of_error h)]

/-- What is to be done in any case is done last. -/
lemma final_ensuring (act : Run α) (after : Renderer → Renderer) (s : Renderer) :
    (act.ensuring after).final s = after (act.final s) := by
  simp only [final, ensuring]
  cases act s <;> rfl

/-- An entry that has been replaced is put back in the renderer that the computation leaves. -/
lemma final_withEntry (name : String) (v : Option Value) (act : Run α) (s : Renderer) :
    (withEntry name v act).final s =
      (act.final (s.mapContext (·.set name v))).mapContext (·.set name (s.context.get? name)) :=
  final_ensuring act _ _

/-- Too many invocations under way leave the renderer as it is. -/
lemma final_nested_of_le {what : String} {act : Run α} {s : Renderer} (h : maxCallDepth ≤ s.depth) :
    (nested what act).final s = s := by
  rw [final, nested, if_pos h]

/-- An invocation is counted while it is under way. -/
lemma final_nested_of_lt {what : String} {act : Run α} {s : Renderer} (h : s.depth < maxCallDepth) :
    (nested what act).final s =
      { act.final { s with depth := s.depth + 1 } with
        depth := (act.final { s with depth := s.depth + 1 }).depth - 1 } := by
  rw [← final_ensuring act (fun s => { s with depth := s.depth - 1 })]
  simp only [final, nested]
  rw [if_neg (Nat.not_le.2 h)]

/-- What is done to a result is done to the outcome. -/
lemma outcome_bind_pure (f : α → β) (act : Run α) (s : Renderer) :
    (act >>= fun a => Pure.pure (f a)).outcome s = (act.outcome s).map f := by
  cases h : act s with
  | ok a t => rw [outcome, bind_of_ok h, outcome, h]; rfl
  | error e t => rw [outcome, bind_of_error h, outcome, h]; rfl

/-- What is to be done in any case does not concern the outcome. -/
lemma outcome_ensuring (act : Run α) (after : Renderer → Renderer) (s : Renderer) :
    (act.ensuring after).outcome s = act.outcome s := by
  simp only [outcome, ensuring]
  cases act s <;> rfl

lemma outcome_withEntry (name : String) (v : Option Value) (act : Run α) (s : Renderer) :
    (withEntry name v act).outcome s = act.outcome (s.mapContext (·.set name v)) :=
  outcome_ensuring act _ _

lemma outcome_nested_of_lt {what : String} {act : Run α} {s : Renderer}
    (h : s.depth < maxCallDepth) :
    (nested what act).outcome s = act.outcome { s with depth := s.depth + 1 } := by
  rw [← outcome_ensuring act (fun s => { s with depth := s.depth - 1 })]
  simp only [outcome, nested]
  rw [if_neg (Nat.not_le.2 h)]

/-- The computation ends with the property whenever it starts with it. -/
def Keeps (p : Renderer → Prop) (act : Run α) : Prop :=
  ∀ s, p s → p (act.final s)

namespace Keeps

variable {p : Renderer → Prop} {act : Run α}

lemma pure (a : α) : Keeps p (Pure.pure a : Run α) := fun _ h => h

lemma throw (e : RenderError) : Keeps p (MonadExcept.throw e : Run α) := fun _ h => h

lemma bind {k : α → Run β} (h : Keeps p act) (hk : ∀ a, Keeps p (k a)) :
    Keeps p (act >>= k) := by
  intro s hs
  have ha := h s hs
  cases hr : act s with
  | ok a t =>
    rw [final_of_ok hr] at ha
    rw [final, bind_of_ok hr]
    exact hk a t ha
  | error e t =>
    rw [final_of_error hr] at ha
    rw [final_of_error (bind_of_error hr)]
    exact ha

lemma get_bind {k : Renderer → Run β} (hk : ∀ s, p s → p ((k s).final s)) :
    Keeps p (get >>= k) := hk

end Keeps

end Run

/-! ### Evaluation -/

section Evaluation

variable {p : Renderer → Prop} {invoker : Invoker} {scope : Scope}

mutual

/-- An expression keeps what calls keep. -/
lemma eval_keeps (hc : ∀ v args kwargs what, (callValue invoker v args kwargs what).Keeps p) :
    ∀ e : Expr, (eval invoker scope e).Keeps p
  | .literal _ => .pure _
  | .var _ => .get_bind fun _ h => h
  | .param _ => .pure _
  | .context _ => .get_bind fun _ h => h
  | .symbol _ => .get_bind fun _ h => h
  | .member target _ => (eval_keeps hc target).bind fun _ => .pure _
  | .index target place =>
    (eval_keeps hc target).bind fun _ => (eval_keeps hc place).bind fun _ => .pure _
  | .list items => (evalItems_keeps hc items).bind fun _ => .pure _
  | .map entries => (evalEntries_keeps hc entries).bind fun _ => .pure _
  | .call callee args kwargs =>
    (eval_keeps hc callee).bind fun _ => (evalItems_keeps hc args).bind fun _ =>
      (evalEntries_keeps hc kwargs).bind fun _ => hc _ _ _ _

lemma evalItems_keeps (hc : ∀ v args kwargs what, (callValue invoker v args kwargs what).Keeps p) :
    ∀ es : List Expr, (evalItems invoker scope es).Keeps p
  | [] => .pure _
  | e :: rest => (eval_keeps hc e).bind fun _ => (evalItems_keeps hc rest).bind fun _ => .pure _

lemma evalEntries_keeps
    (hc : ∀ v args kwargs what, (callValue invoker v args kwargs what).Keeps p) :
    ∀ es : List (String × Expr), (evalEntries invoker scope es).Keeps p
  | [] => .pure _
  | (_, e) :: rest =>
    (eval_keeps hc e).bind fun _ => (evalEntries_keeps hc rest).bind fun _ => .pure _

end

end Evaluation

end Stencil
