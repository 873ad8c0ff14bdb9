import Stencil.Proofs.Balance
import Stencil.Proofs.Reach
import Stencil.Proofs.Simulation
import Mathlib.Data.Prod.Lex

/-!
Why every run ends, and how one ends that would nest too deeply.

The moments of a run go down. A part of a moment either **enters** an invocation, which counts one
more of them and happens below `maxCallDepth` only, or it **descends**: the same invocations are
under way, and there is less code to do (`Moment.Part.enters_or_descends`). Therefore no moment goes
on for ever (`Moment.part_wellFounded`), and the invocations counted on the way to a moment
(`Moment.Nests`) are at most `maxCallDepth` (`Moment.Nests.depth_le`), so that the room `invoke` is
given is never used up (`Moment.Nests.room_add`).

Nothing depends on that room. An invoker **recurs** if it carries out invocations by means of
itself, without any room to count; `invoke maxCallDepth` does, and running code by means of any
invoker that does gives the same (`Invoker.Recurs.agrees`), since invokers that agree at one depth
make everything agree at the depth before (`carryOut_agrees`).

An error in a part is an error of the whole (`Moment.Part.failsWith`). The main result is
`rendering_terminates`.
-/

namespace Stencil

/-! ### Going down -/

/-- The size of the code that a task has before it. Calling and displaying a value has none. -/
noncomputable def Task.size : Task → Nat
  | .eval _ e => sizeOf e
  | .items _ es => sizeOf es
  | .entries _ es => sizeOf es
  | .call _ _ _ => 0
  | .display _ => 0
  | .instr _ i => sizeOf i
  | .code _ is => sizeOf is
  | .invoke (.call m _ _) => 1 + sizeOf m
  | .invoke (.block body _ _) => 1 + sizeOf body
  | .invoke (.markup body _) => 1 + sizeOf body
  | .defaults _ ps _ => sizeOf ps

/-- How many invocations a task is. -/
def Task.invocations : Task → Nat
  | .invoke _ => 1
  | _ => 0

namespace Moment

/-- The second moment is an invocation inside the first, of which there were not too many. -/
structure Enters (a b : Moment) : Prop where
  below : a.renderer.depth < maxCallDepth
  depth : b.renderer.depth = a.renderer.depth + 1
  invocation : b.task.invocations = 1
  outside : a.task.invocations = 0
  room : b.room = a.room

/-- The second moment is inside the same invocations as the first, and has less code before it. -/
structure Descends (a b : Moment) : Prop where
  depth : b.renderer.depth = a.renderer.depth
  size : b.task.size < a.task.size
  invocation : b.task.invocations = 0
  room : b.room + a.task.invocations = a.room

end Moment

section Depth

variable {r : Nat} {scope : Scope} {s t : Renderer}

lemma Run.depth_of_ok {α : Type} {act : Run α} (h : Holds s (act.final s)) {a : α}
    (ha : act s = .ok a t) : t.depth = s.depth := by
  have hdepth := h.depth
  rwa [Run.final_of_ok ha] at hdepth

lemma eval_depth {e : Expr} {v : Value} (h : eval (invoke r) scope e s = .ok v t) :
    t.depth = s.depth :=
  Run.depth_of_ok (eval_balanced (invoke_holds r) scope e s).toHolds h

lemma callValue_keeps (r : Nat) (s : Renderer) (v : Value) (args : List Value)
    (kwargs : Option (Dict Value)) (what : String) :
    (callValue (invoke r) v args kwargs what).Keeps (Balanced s) :=
  fun t ht => ht.trans (callValue_balanced (invoke_holds r) v args kwargs what t)

lemma evalItems_depth {es : List Expr} {vs : List Value}
    (h : evalItems (invoke r) scope es s = .ok vs t) : t.depth = s.depth :=
  Run.depth_of_ok (evalItems_keeps (callValue_keeps r s) es s (.refl s)).toHolds h

lemma evalEntries_depth {es : List (String × Expr)} {vs : List (String × Value)}
    (h : evalEntries (invoke r) scope es s = .ok vs t) : t.depth = s.depth :=
  Run.depth_of_ok (evalEntries_keeps (callValue_keeps r s) es s (.refl s)).toHolds h

lemma evalWrapped_depth {body : List Instr} {e : Expr} {v : Value}
    (h : evalWrapped (invoke r) scope body e s = .ok v t) : t.depth = s.depth :=
  Run.depth_of_ok (evalWrapped_balanced (invoke_holds r) scope body e s).1.toHolds h

lemma execInstr_depth {i : Instr} {out : String}
    (h : execInstr (invoke r) scope i s = .ok out t) : t.depth = s.depth :=
  Run.depth_of_ok (execInstr_holds (invoke_holds r) scope s i s (.refl s)) h

lemma bindParams_depth {m : Macro} {args : List Value} {vars : Dict Value}
    (h : bindParams (invoke r) m scope args s = .ok vars t) : t.depth = s.depth :=
  Run.depth_of_ok (bindParams_holds (invoke_holds r) m scope args s) h

end Depth

namespace Moment

variable {a b : Moment}

/-- Only invocations start with more of them under way, and only while there are not too many. -/
lemma Part.enters (h : Part a b) (hb : b.task.invocations = 1) : a.Enters b := by
  cases h with
  | closure hd | block hd | space hd => exact ⟨hd, rfl, rfl, rfl, rfl⟩
  | _ => cases hb

/-- What is no invocation starts inside the same ones. -/
lemma Part.depth_eq (h : Part a b) (hb : b.task.invocations = 0) :
    b.renderer.depth = a.renderer.depth := by
  cases h with
  | closure | block | space => cases hb
  | place hv | args hv | items hv | entries hv | displayed hv | filled _ _ hv =>
    exact eval_depth hv
  | kwargs hv hvs => exact (evalItems_depth hvs).trans (eval_depth hv)
  | call hv hvs hnamed =>
    exact (evalEntries_depth hnamed).trans ((evalItems_depth hvs).trans (eval_depth hv))
  | wrappedDisplayed hv => exact evalWrapped_depth hv
  | rest hi => exact execInstr_depth hi
  | body hvars => exact (bindParams_depth hvars :)
  | _ => rfl

/-- What is no invocation has less code before it. -/
lemma Part.size_lt (h : Part a b) (hb : b.task.invocations = 0) : b.task.size < a.task.size := by
  cases h with
  | closure | block | space => cases hb
  | @params _ m | @body _ m =>
    cases m
    simp only [Task.size, Macro.mk.sizeOf_spec]
    omega
  | @default _ _ p _ _ _ _ hd =>
    obtain ⟨name, d⟩ := p
    cases hd
    simp only [Task.size, List.cons.sizeOf_spec, Param.mk.sizeOf_spec, Option.some.sizeOf_spec]
    omega
  | _ =>
    simp only [Task.size, Expr.member.sizeOf_spec, Expr.index.sizeOf_spec, Expr.list.sizeOf_spec,
      Expr.map.sizeOf_spec, Expr.call.sizeOf_spec, Instr.output.sizeOf_spec,
      Instr.callBlock.sizeOf_spec, Instr.bindSpace.sizeOf_spec, List.cons.sizeOf_spec,
      Prod.mk.sizeOf_spec]
    omega

/-- **Every step goes down**: into an invocation, of which there can be so many only, or to less
code. -/
lemma Part.enters_or_descends (h : Part a b) : a.Enters b ∨ a.Descends b := by
  obtain hb | hb : b.task.invocations = 1 ∨ b.task.invocations = 0 := by
    cases b.task <;> simp [Task.invocations]
  · exact .inl (h.enters hb)
  · refine .inr ⟨h.depth_eq hb, h.size_lt hb, hb, ?_⟩
    cases h with
    | closure | block | space => cases hb
    | _ => rfl

/-- **No moment goes on for ever.** -/
lemma part_wellFounded : WellFounded fun b a => Part a b := by
  let rank (m : Moment) : Nat ×ₗ Nat := toLex (maxCallDepth - m.renderer.depth, m.task.size)
  refine Subrelation.wf (fun {b a} h => ?_) (InvImage.wf rank wellFounded_lt)
  refine Prod.Lex.toLex_lt_toLex.2 ?_
  obtain hin | hdown := h.enters_or_descends
  · have hbelow := hin.below
    have hdepth := hin.depth
    exact .inl (by omega)
  · exact .inr ⟨by rw [hdown.depth], hdown.size⟩

/-! ### Nesting -/

/-- The second moment comes up in the course of the first, inside that many invocations more. -/
inductive Nests (a : Moment) : Nat → Moment → Prop
  | refl : Nests a 0 a
  | tail {n : Nat} {b c : Moment} : Nests a n b → Part b c → Nests a (n + c.task.invocations) c

/-- What comes up is inside some number of invocations. -/
lemma Reaches.nests (h : Reaches a b) : ∃ n, a.Nests n b := by
  induction h with
  | refl => exact ⟨0, .refl⟩
  | tail _ hstep ih =>
    obtain ⟨n, hn⟩ := ih
    exact ⟨_, hn.tail hstep⟩

namespace Nests

variable {n : Nat}

/-- The renderer counts the invocations. -/
lemma depth (h : a.Nests n b) : b.renderer.depth = a.renderer.depth + n := by
  induction h with
  | refl => rfl
  | @tail n b c _ hstep ih =>
    obtain hin | hdown := hstep.enters_or_descends
    · rw [hin.depth, hin.invocation, ih]
      rfl
    · rw [hdown.depth, hdown.invocation, ih]
      rfl

/-- There are never too many of them. -/
lemma depth_le (h : a.Nests n b) : n = 0 ∨ b.renderer.depth ≤ maxCallDepth := by
  induction h with
  | refl => exact .inl rfl
  | @tail n b c _ hstep ih =>
    obtain hin | hdown := hstep.enters_or_descends
    · exact .inr (hin.depth ▸ hin.below)
    · rw [hdown.depth, hdown.invocation]
      exact ih

/-- What is counted as under way is no longer counted as room. -/
lemma room_add (h : a.Nests n b) (ha : a.task.invocations = 0) :
    b.room + n = a.room + b.task.invocations := by
  induction h with
  | refl => rw [ha]
  | @tail n b c _ hstep ih =>
    obtain hin | hdown := hstep.enters_or_descends
    · rw [hin.room, hin.invocation, ← Nat.add_assoc, ih, hin.outside]
    · rw [hdown.invocation, Nat.add_zero, Nat.add_zero]
      have hroom := hdown.room
      omega

end Nests

end Moment

/-! ### Failing -/

namespace Run

variable {α β : Type} {P : RenderError → Prop} {act : Run α} {s t : Renderer}

/-- The computation ends with such an error. -/
def FailsWith (P : RenderError → Prop) (act : Run α) (s : Renderer) : Prop :=
  ∃ e t, act s = .error e t ∧ P e

namespace FailsWith

lemma bind (h : act.FailsWith P s) (k : α → Run β) : (act >>= k).FailsWith P s := by
  obtain ⟨e, t, he, hP⟩ := h
  exact ⟨e, t, bind_of_error he, hP⟩

lemma bind_of_ok {k : α → Run β} {a : α} (ha : act s = .ok a t) (h : (k a).FailsWith P t) :
    (act >>= k).FailsWith P s := by
  obtain ⟨e, u, he, hP⟩ := h
  exact ⟨e, u, (Run.bind_of_ok ha).trans he, hP⟩

lemma ensuring (h : act.FailsWith P s) (after : Renderer → Renderer) :
    (act.ensuring after).FailsWith P s := by
  obtain ⟨e, t, he, hP⟩ := h
  exact ⟨e, after t, by rw [Run.ensuring, he], hP⟩

lemma withEntry {name : String} {v : Option Value}
    (h : act.FailsWith P (s.mapContext (·.set name v))) : (act.withEntry name v).FailsWith P s :=
  h.ensuring _

lemma nested (what : String) (hd : s.depth < maxCallDepth) (h : act.FailsWith P s.deeper) :
    (act.nested what).FailsWith P s := by
  obtain ⟨e, t, he, hP⟩ := h.ensuring fun s => { s with depth := s.depth - 1 }
  exact ⟨e, t, by rw [Run.nested, if_neg (Nat.not_le.2 hd)]; exact he, hP⟩

end FailsWith

end Run

/-- The task ends with such an error. -/
def Task.FailsWith (P : RenderError → Prop) (invoker : Invoker) (s : Renderer) : Task → Prop
  | .eval scope e => (Stencil.eval invoker scope e).FailsWith P s
  | .items scope es => (evalItems invoker scope es).FailsWith P s
  | .entries scope es => (evalEntries invoker scope es).FailsWith P s
  | .call target args kwargs => ∀ what, (callValue invoker target args kwargs what).FailsWith P s
  | .display v => (Stencil.display invoker v).FailsWith P s
  | .instr scope i => (execInstr invoker scope i).FailsWith P s
  | .code scope is => (exec invoker scope is).FailsWith P s
  | .invoke i => (invoker i).FailsWith P s
  | .defaults scope ps vars => (fillDefaults invoker scope ps vars).FailsWith P s

namespace Moment

variable {P : RenderError → Prop} {a b : Moment}

/-- The moment ends with such an error. -/
def FailsWith (P : RenderError → Prop) (a : Moment) : Prop :=
  a.task.FailsWith P (Stencil.invoke a.room) a.renderer

/-- **Nothing catches an error**: if a part fails, the whole fails in the same way. -/
lemma Part.failsWith (h : Part a b) (hb : b.FailsWith P) : a.FailsWith P := by
  cases h with
  | target | indexed | list | map | callee | item | entry | output | first =>
    exact Run.FailsWith.bind hb _
  | place hv | args hv | items hv | entries hv =>
    exact .bind_of_ok hv (Run.FailsWith.bind hb _)
  | kwargs hv hvs => exact .bind_of_ok hv (.bind_of_ok hvs (Run.FailsWith.bind hb _))
  | call hv hvs hnamed => exact .bind_of_ok hv (.bind_of_ok hvs (.bind_of_ok hnamed (hb _)))
  | closure hd | block hd =>
    exact fun what => Run.FailsWith.bind (.nested what hd (.withEntry hb)) _
  | space hd => exact .nested _ hd hb
  | displayed hv | wrappedDisplayed hv => exact .bind_of_ok hv hb
  | wrapped => exact Run.FailsWith.bind (Run.FailsWith.withEntry hb) _
  | members => exact Run.FailsWith.bind hb _
  | rest hi => exact .bind_of_ok hi (Run.FailsWith.bind hb _)
  | params =>
    obtain ⟨e, t, he, hP⟩ := hb
    exact ⟨e, t, invokeMacro_of_error (Run.bind_of_error he), hP⟩
  | @body _ _ _ _ s _ _ hvars =>
    obtain ⟨e, t, he, hP⟩ := Run.FailsWith.ensuring hb (·.mapContext (·.restore s.context))
    exact ⟨e, t, (invokeMacro_of_ok hvars).trans he, hP⟩
  | content => exact Run.FailsWith.withEntry hb
  | markup => exact hb
  | default hd hu =>
    show (fillDefaults _ _ (_ :: _) _).FailsWith P _
    rw [fillDefaults, hd]
    simp only [if_pos hu]
    exact Run.FailsWith.bind hb _
  | filled hd hu hv =>
    show (fillDefaults _ _ (_ :: _) _).FailsWith P _
    rw [fillDefaults, hd]
    simp only [if_pos hu]
    exact .bind_of_ok hv hb
  | @given _ _ p _ _ _ hgiven =>
    show (fillDefaults _ _ (_ :: _) _).FailsWith P _
    rw [fillDefaults]
    cases hd : p.default with
    | none => exact hb
    | some e =>
      simp only [if_neg (hgiven.resolve_left (by simp [hd]))]
      exact hb

/-- Neither does anything on the way to the start. -/
lemma Reaches.failsWith (h : a.Reaches b) (hb : b.FailsWith P) : a.FailsWith P := by
  induction h with
  | refl => exact hb
  | tail _ hstep ih => exact ih (hstep.failsWith hb)

/-- The moment needs one invocation more, of which there may be no more. -/
inductive Exceeds : Moment → Prop
  | closure {r : Nat} {id : Nat} {m : Macro} {scope : Scope} {args : List Value}
      {kwargs : Option (Dict Value)} {s : Renderer} : maxCallDepth ≤ s.depth →
      Exceeds ⟨r, .call (.closure id m scope) args kwargs, s⟩
  | block {r : Nat} {id : Nat} {body : List Instr} {outer : Option Value} {scope : Scope}
      {args : List Value} {kwargs : Option (Dict Value)} {s : Renderer} :
      maxCallDepth ≤ s.depth → Exceeds ⟨r, .call (.block id body outer scope) args kwargs, s⟩
  | space {r : Nat} {members : Dict Value} {body : List Instr} {scope : Scope} {s : Renderer} :
      maxCallDepth ≤ s.depth → Exceeds ⟨r, .display (.space members (some (body, scope))), s⟩

/-- It is refused. -/
lemma Exceeds.failsWith (h : a.Exceeds) :
    a.FailsWith fun e => ∃ what, e = .callDepth what ∧ (Error.render e).kind = .rendering := by
  have hrefused {α : Type} (what : String) (act : Run α) {s : Renderer}
      (hd : maxCallDepth ≤ s.depth) : (act.nested what).FailsWith (fun e =>
        ∃ what, e = .callDepth what ∧ (Error.render e).kind = .rendering) s :=
    ⟨.callDepth what, s, by rw [Run.nested, if_pos hd], what, rfl, rfl⟩
  cases h with
  | closure hd | block hd => exact fun what => .bind (hrefused what _ hd) _
  | space hd => exact hrefused _ _ hd

end Moment

/-! ### One solution -/

namespace Run

variable {α β : Type} {d : Nat} {act act' : Run α}

/-- With that many invocations under way the computations do the same, and count none more. -/
def Agrees (d : Nat) (act act' : Run α) : Prop :=
  Sim (fun s t => s = t ∧ s.depth = d) Eq Eq act act'

namespace Agrees

lemma eq (h : Agrees d act act') {s : Renderer} (hs : s.depth = d) : act s = act' s := by
  have hmatches := h s s ⟨rfl, hs⟩
  generalize act s = r at hmatches ⊢
  generalize act' s = r' at hmatches ⊢
  cases hmatches using Matches.strict with
  | ok hv ht => rw [hv, ht.1]
  | error he ht => rw [he, ht.1]

lemma pure (a : α) : Agrees d (Pure.pure a : Run α) (Pure.pure a) := Sim.pure rfl

lemma throw (e : RenderError) :
    Agrees d (MonadExcept.throw e : Run α) (MonadExcept.throw e) := Sim.throw rfl

lemma bind {k k' : α → Run β} (h : Agrees d act act') (hk : ∀ a, Agrees d (k a) (k' a)) :
    Agrees d (act >>= k) (act' >>= k') :=
  Sim.bind h fun a _ heq => heq ▸ hk a

lemma get_bind {k k' : Renderer → Run α} (hk : ∀ s, Agrees d (k s) (k' s)) :
    Agrees d (get >>= k) (get >>= k') := by
  rintro s _ ⟨rfl, hs⟩
  exact hk s s s ⟨rfl, hs⟩

lemma modify_bind {f : Renderer → Renderer} (hf : ∀ s, (f s).depth = s.depth)
    (h : Agrees d act act') :
    Agrees d (modify f >>= fun _ => act) (modify f >>= fun _ => act') := by
  rintro s _ ⟨rfl, hs⟩
  exact h (f s) (f s) ⟨rfl, (hf s).trans hs⟩

lemma ensuring (after : Renderer → Renderer) (hafter : ∀ s, (after s).depth = s.depth)
    (h : Agrees d act act') : Agrees d (act.ensuring after) (act'.ensuring after) := by
  intro s t hst
  refine (h s t hst).ensuring ?_
  rintro u _ ⟨rfl, hu⟩
  exact ⟨rfl, (hafter u).trans hu⟩

lemma withEntry (name : String) (v : Option Value) (h : Agrees d act act') :
    Agrees d (act.withEntry name v) (act'.withEntry name v) := by
  rintro s _ ⟨rfl, hs⟩
  exact ensuring (·.mapContext (·.set name (s.context.get? name))) (fun _ => rfl) h _ _ ⟨rfl, hs⟩

/-- Invocations agree if those with one more under way do, of which there may be too many. -/
lemma nested (what : String) (h : d < maxCallDepth → Agrees (d + 1) act act') :
    Agrees d (act.nested what) (act'.nested what) := by
  rintro s _ ⟨rfl, hs⟩
  rw [Run.nested, Run.nested]
  by_cases hd : maxCallDepth ≤ s.depth
  · rw [if_pos hd, if_pos hd]
    exact .error rfl ⟨rfl, hs⟩
  · rw [if_neg hd, if_neg hd]
    have hinner := h (by omega) s.deeper s.deeper ⟨rfl, congrArg (· + 1) hs⟩
    refine hinner.ensuring ?_
    rintro u _ ⟨rfl, hu⟩
    refine ⟨rfl, ?_⟩
    show u.depth - 1 = d
    rw [hu, Nat.add_sub_cancel]

end Agrees

end Run

section Level

/-- With one invocation more under way than that, if there may be one, the invokers do the same. -/
def Invoker.AgreesPast (d : Nat) (I I' : Invoker) : Prop :=
  d < maxCallDepth → ∀ i, (I i).Agrees (d + 1) (I' i)

variable {d : Nat} {I I' : Invoker} {scope : Scope} (hI : I.AgreesPast d I')

include hI

/-- Calls agree. -/
lemma callValue_agrees (target : Value) (args : List Value) (kwargs : Option (Dict Value))
    (what : String) :
    (callValue I target args kwargs what).Agrees d (callValue I' target args kwargs what) := by
  have enter (i : Invocation) :=
    Run.Agrees.nested what fun hd => .withEntry kwargsName (kwargs.map .map) (hI hd i)
  cases target with
  | closure | block => exact .bind (enter _) fun _ => .pure _
  | undefined | nothing => exact .pure _
  | _ => exact .throw _

omit hI in
mutual

/-- Expressions agree. -/
lemma eval_agrees (hI : I.AgreesPast d I') :
    ∀ e : Expr, (eval I scope e).Agrees d (eval I' scope e)
  | .literal _ => .pure _
  | .var _ => .get_bind fun _ => .pure _
  | .param _ => .pure _
  | .context _ => .get_bind fun _ => .pure _
  | .symbol _ => .get_bind fun _ => .pure _
  | .member target _ => (eval_agrees hI target).bind fun _ => .pure _
  | .index target place =>
    (eval_agrees hI target).bind fun _ => (eval_agrees hI place).bind fun _ => .pure _
  | .list items => (evalItems_agrees hI items).bind fun _ => .pure _
  | .map entries => (evalEntries_agrees hI entries).bind fun _ => .pure _
  | .call callee args kwargs =>
    (eval_agrees hI callee).bind fun _ => (evalItems_agrees hI args).bind fun _ =>
      (evalEntries_agrees hI kwargs).bind fun _ => callValue_agrees hI _ _ _ _

lemma evalItems_agrees (hI : I.AgreesPast d I') :
    ∀ es : List Expr, (evalItems I scope es).Agrees d (evalItems I' scope es)
  | [] => .pure _
  | e :: rest => (eval_agrees hI e).bind fun _ => (evalItems_agrees hI rest).bind fun _ => .pure _

lemma evalEntries_agrees (hI : I.AgreesPast d I') :
    ∀ es : List (String × Expr), (evalEntries I scope es).Agrees d (evalEntries I' scope es)
  | [] => .pure _
  | (_, e) :: rest =>
    (eval_agrees hI e).bind fun _ => (evalEntries_agrees hI rest).bind fun _ => .pure _

end

lemma display_agrees (v : Value) : (display I v).Agrees d (display I' v) := by
  simp only [display]
  split
  · exact .nested _ fun hd => hI hd _
  · exact .pure _

lemma evalWrapped_agrees (body : List Instr) (e : Expr) :
    (evalWrapped I scope body e).Agrees d (evalWrapped I' scope body e) := by
  rintro s _ ⟨rfl, hs⟩
  exact Run.Agrees.withEntry callerName _ (eval_agrees hI e) _ _ ⟨rfl, hs⟩

omit hI in
mutual

/-- Instructions agree. -/
lemma execInstr_agrees (hI : I.AgreesPast d I') :
    ∀ i : Instr, (execInstr I scope i).Agrees d (execInstr I' scope i)
  | .text _ => .pure _
  | .output e => (eval_agrees hI e).bind fun _ => display_agrees hI _
  | .define target m => by
    rintro s _ ⟨rfl, hs⟩
    exact .ok rfl ⟨rfl, by cases target <;> exact hs⟩
  | .callBlock body e _ => (evalWrapped_agrees hI body e).bind fun _ => display_agrees hI _
  | .bindSpace _ members _ =>
    .modify_bind (fun _ => rfl) <| (exec_agrees hI members).bind fun _ =>
      .modify_bind (fun _ => rfl) (.pure _)

lemma exec_agrees (hI : I.AgreesPast d I') :
    ∀ is : List Instr, (exec I scope is).Agrees d (exec I' scope is)
  | [] => .pure _
  | i :: rest => (execInstr_agrees hI i).bind fun _ => (exec_agrees hI rest).bind fun _ => .pure _

end

lemma fillDefaults_agrees (ps : List Param) (vars : Dict Value) :
    (fillDefaults I scope ps vars).Agrees d (fillDefaults I' scope ps vars) := by
  induction ps generalizing vars with
  | nil => exact .pure _
  | cons p ps ih =>
    rw [fillDefaults, fillDefaults]
    split
    · exact ih _
    · split
      · exact (eval_agrees hI _).bind fun _ => ih _
      · exact ih _

lemma invokeMacro_agrees (m : Macro) (args : List Value) :
    (invokeMacro I m scope args).Agrees d (invokeMacro I' m scope args) := by
  refine .get_bind fun before => .bind ?_ fun vars => .modify_bind (fun _ => rfl) ?_
  · exact (fillDefaults_agrees hI _ _).bind fun _ => .get_bind fun _ => .pure _
  · exact .ensuring _ (fun _ => rfl) (exec_agrees hI _)

/-- **Invokers that agree at one depth agree at the depth before.** -/
lemma carryOut_agrees (i : Invocation) : (carryOut I i).Agrees d (carryOut I' i) := by
  cases i with
  | call m scope args => exact invokeMacro_agrees hI m args
  | block body outer scope => exact .withEntry callerName outer (exec_agrees hI body)
  | markup body scope => exact exec_agrees hI body

end Level

/-- The invoker carries out invocations by means of itself, whenever there are not too many. -/
def Invoker.Recurs (I : Invoker) : Prop :=
  ∀ i s, 0 < s.depth → s.depth ≤ maxCallDepth → I i s = carryOut I i s

/-- How much room there is does not matter, if there is enough. -/
lemma invoke_agrees (r r' d : Nat) (hr : maxCallDepth < r + d) (hr' : maxCallDepth < r' + d)
    (hd : d ≤ maxCallDepth) (i : Invocation) : (invoke r i).Agrees d (invoke r' i) := by
  induction r generalizing r' d i with
  | zero => omega
  | succ r ih =>
    cases r' with
    | zero => omega
    | succ r' =>
      exact carryOut_agrees (fun hlt i => ih r' (d + 1) (by omega) (by omega) (by omega) i) i

/-- The renderer carries out invocations by means of itself. -/
lemma invoke_recurs : (invoke maxCallDepth).Recurs := by
  intro i s hpos hle
  have hroom : maxCallDepth = 127 + 1 := rfl
  refine (carryOut_agrees (I := invoke 127) (fun hlt i => ?_) i).eq rfl
  exact invoke_agrees 127 maxCallDepth (s.depth + 1) (by omega) (by omega) (by omega) i

namespace Invoker.Recurs

variable {I : Invoker}

/-- So does nothing else. -/
lemma agrees (h : I.Recurs) (r d : Nat) (hr : maxCallDepth < r + d) (hd : d ≤ maxCallDepth)
    (hpos : 0 < d) (i : Invocation) : (I i).Agrees d (invoke r i) := by
  induction r generalizing d i with
  | zero => omega
  | succ r ih =>
    have hcarry : (carryOut I i).Agrees d (carryOut (invoke r) i) :=
      carryOut_agrees (fun hlt i => ih (d + 1) (by omega) (by omega) (by omega) i) i
    rintro s _ ⟨rfl, hs⟩
    rw [h i s (hs ▸ hpos) (hs ▸ hd)]
    exact hcarry s s ⟨rfl, hs⟩

/-- Nothing that runs can tell it from the renderer. -/
lemma same (h : I.Recurs) (scope : Scope) :
    (∀ e, eval I scope e = Renderer.evaluate scope e) ∧
      (∀ is, exec I scope is = exec (invoke maxCallDepth) scope is) ∧
      ∀ v, display I v = Renderer.stringify v := by
  have hI (d : Nat) (hd : d < maxCallDepth) (i : Invocation) :
      (I i).Agrees (d + 1) (invoke maxCallDepth i) :=
    h.agrees maxCallDepth (d + 1) (by omega) (by omega) (by omega) i
  exact ⟨fun e => funext fun s => (eval_agrees (hI s.depth) e).eq rfl,
    fun is => funext fun s => (exec_agrees (hI s.depth) is).eq rfl,
    fun v => funext fun s => (display_agrees (hI s.depth) v).eq rfl⟩

end Invoker.Recurs

/-- **Rendering terminates**, whatever is run, evaluated or displayed, and whatever renderer it
starts from. Every step goes down, to an invocation inside those under way or to less code, so that
the steps are well founded; there are never more than `maxCallDepth` invocations inside one another,
and room for the next one is left; the recursion has no other solution, although it does not count
any room; and if one invocation more is called for, everything ends with an error about it. -/
theorem rendering_terminates {task : Task} (htask : task.invocations = 0) (s : Renderer) :
    let start : Moment := ⟨maxCallDepth, task, s⟩
    (WellFounded fun b a : Moment => a.Part b) ∧
    (∀ a b : Moment, a.Part b → a.Enters b ∨ a.Descends b) ∧
    (∀ m, start.Reaches m → ∃ n ≤ maxCallDepth, start.Nests n m ∧
      m.renderer.depth = s.depth + n ∧ (0 < m.task.invocations → 0 < m.room)) ∧
    ((invoke maxCallDepth).Recurs ∧ ∀ I : Invoker, I.Recurs → ∀ scope : Scope,
      (∀ e, eval I scope e = Renderer.evaluate scope e) ∧
      (∀ is, exec I scope is = exec (invoke maxCallDepth) scope is) ∧
      ∀ v, display I v = Renderer.stringify v) ∧
    ∀ m, start.Reaches m → m.Exceeds → start.FailsWith fun e =>
      ∃ what, e = .callDepth what ∧ (Error.render e).kind = .rendering := by
  intro start
  refine ⟨Moment.part_wellFounded, fun _ _ h => h.enters_or_descends, fun m hm => ?_,
    ⟨invoke_recurs, fun _ hI => hI.same⟩, fun m hm hex => ?_⟩
  · obtain ⟨n, hn⟩ := hm.nests
    have hdepth : m.renderer.depth = s.depth + n := hn.depth
    have hroom : m.room + n = maxCallDepth + m.task.invocations := hn.room_add htask
    have hle : n ≤ maxCallDepth := by
      obtain hzero | hbelow := hn.depth_le
      · exact hzero ▸ Nat.zero_le _
      · omega
    exact ⟨n, hle, hn, hdepth, by omega⟩
  · exact hm.failsWith hex.failsWith

namespace Runaway

/-- The call of a macro. -/
def again : Expr := .call (.context "f") [] []

/-- The macro, which calls itself. -/
def loop : Macro := ⟨"f", [], [.output again], "page"⟩

/-- A page that defines the macro and calls it. -/
def program : Program := ⟨"page", [.define (.context "f") loop, .output again]⟩

/-- A call leads to the next one, with one more under way, and in the end to one too many. -/
lemma again_exceeds (n : Nat) {scope : Scope} {s : Renderer} (hs : s.depth + n = maxCallDepth)
    (hf : s.context.get? "f" = some (.closure 0 loop [])) :
    ∃ m, Moment.Reaches ⟨n, .eval scope again, s⟩ m ∧ m.Exceeds := by
  have hcallee {n : Nat} {scope : Scope} {s : Renderer}
      (hf : s.context.get? "f" = some (.closure 0 loop [])) :
      Moment.Reaches ⟨n, .eval scope again, s⟩ ⟨n, .call (.closure 0 loop []) [] none, s⟩ := by
    refine .single (.call (v := .closure 0 loop []) ?_ rfl rfl)
    show EStateM.Result.ok ((s.context.get? "f").getD .undefined) s = _
    rw [hf]
    rfl
  induction n generalizing scope s with
  | zero => exact ⟨_, hcallee hf, .closure (by omega)⟩
  | succ n ih =>
    let t := (s.calling none).without loop.params
    have hcall : Moment.Reaches ⟨n + 1, .eval scope again, s⟩
        ⟨n, .code [.ofList []] [.output again], t⟩ :=
      ((hcallee hf).tail (.closure (by omega))).tail (.body rfl)
    have ht : t.context.get? "f" = some (.closure 0 loop []) := by
      show (s.context.set kwargsName none).get? "f" = _
      rw [Context.get?_set, if_neg (by decide)]
      exact hf
    have hdepth : t.depth + n = maxCallDepth := by
      show s.depth + 1 + n = maxCallDepth
      omega
    obtain ⟨m, hm, hex⟩ := ih hdepth ht
    exact ⟨m, ((hcall.tail .first).tail .output).trans hm, hex⟩

/-- The page comes to one call too many, and ends with an error about it. -/
theorem runaway_refused : (Task.code [] program.instrs).invocations = 0 ∧
    (∃ m, (Moment.opening program .empty 0).Reaches m ∧ m.Exceeds) ∧
    ∃ what t, Renderer.render program (.start .empty 0) = .error (.callDepth what) t := by
  have htask : (Task.code [] program.instrs).invocations = 0 := rfl
  let s := (Renderer.start .empty 1).bind (.context "f") (.closure 0 loop [])
  have hdefined : (Moment.opening program .empty 0).Reaches
      ⟨maxCallDepth, .code [] [.output again], s⟩ := .single (.rest rfl)
  have hf : s.context.get? "f" = some (.closure 0 loop []) := rfl
  obtain ⟨m, hm, hex⟩ := again_exceeds maxCallDepth (Nat.zero_add _) hf
  have hreach := ((hdefined.tail .first).tail .output).trans hm
  obtain ⟨_, t, he, what, rfl, _⟩ :=
    (rendering_terminates htask (.start .empty 0)).2.2.2.2 m hreach hex
  exact ⟨htask, ⟨m, hreach, hex⟩, what, t, he⟩

end Runaway

end Stencil
