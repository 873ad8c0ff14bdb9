import Stencil.Proofs.Identity
import Stencil.Proofs.Macros
import Stencil.Proofs.Reach

/-!
Transparent calls. If the definitions of all templates stand at the top level, every moment of a
run is **flat** (`Moment.Flat`): no value that is in reach has code that defines anything. The main
steps are that flat moments have flat parts (`Moment.Flat.part`), and that in a flat moment an
expression leaves no trace and gives the same again (`Renderer.Flat.eval_again`). Together these are
`evaluation_transparent`.
-/

namespace Stencil

/-! ### Evaluating again -/

section Again

variable {s t : Renderer} {scope : Scope} {e : Expr} {r : Nat}

/-- Equal values that are flat besides. -/
lemma Value.Congruence.eq_and {V : Value → Value → Prop} (hV : Value.Congruence V) :
    Value.Congruence fun v w => v = w ∧ V v w where
  literal l := ⟨rfl, hV.literal l⟩
  member h name := ⟨by rw [h.1], hV.member h.2 name⟩
  index h hp := ⟨by rw [h.1, hp.1], hV.index h.2 hp.2⟩
  list {vs ws} h := by
    have heq : vs = ws := by
      rw [← List.forall₂_eq_eq_eq]
      exact h.imp fun _ _ h => h.1
    exact ⟨by rw [heq], hV.list (h.imp fun _ _ h => h.2)⟩
  map {d e} h := by
    have heq : d = e := by
      rw [← List.forall₂_eq_eq_eq]
      refine h.imp fun _ _ h => ?_
      obtain ⟨k, hv, _⟩ := h
      rw [hv]
    exact ⟨by rw [heq], hV.map (h.imp fun _ _ h => by
      obtain ⟨k, _, hv⟩ := h
      exact .mk k hv)⟩

/-- The value of a reference depends on nothing but the context and the private table. -/
lemma Expr.IsReference.eval_same (scope : Scope) (he : e.IsReference) (h : s.Same t) :
    ∃ v, ∀ invoker, eval invoker scope e s = .ok v s ∧ eval invoker scope e t = .ok v t := by
  obtain ⟨context, symbols, depth, fresh⟩ := s
  obtain ⟨context', symbols', depth', fresh'⟩ := t
  obtain ⟨rfl, rfl, rfl⟩ := h
  cases he with
  | var name => exact ⟨_, fun _ => ⟨rfl, rfl⟩⟩
  | param name => exact ⟨_, fun _ => ⟨rfl, rfl⟩⟩
  | context name => exact ⟨_, fun _ => ⟨rfl, rfl⟩⟩
  | symbol key => exact ⟨_, fun _ => ⟨rfl, rfl⟩⟩

/-- An expression gives the same in renderers that differ in identities only. -/
lemma Renderer.Flat.eval_again (hs : s.Flat) (hscope : scope.Flat) (e : Expr) (ht : s.Same t) :
    (eval (invoke r) scope e).outcome t = (eval (invoke r) scope e).outcome s := by
  have hC := Correspondence.identity_lawful
  have H : EvalSim Expr.Itself (Pinned s s) Eq (fun v w => v = w ∧ v.Alike w) (invoke r) (invoke r)
      scope scope := by
    refine ⟨(Value.Likeness.congruence _).eq_and, ?_, ?_⟩
    · rintro e _ ⟨he, rfl⟩ u u' ⟨hu, hu'⟩
      obtain ⟨v, hv⟩ := he.eval_same scope (hu.symm.trans hu')
      obtain ⟨h, h'⟩ := hv (invoke r)
      have hflat := ((hs.of_same hu).of_ok (eval_sim_self hscope e) h).1
      rw [h, h']
      exact .ok ⟨rfl, hflat⟩ ⟨hu, hu'⟩
    · intro v v' args args' kwargs kwargs' c c' hv hargs hkwargs hc
      have hargs' := hargs.imp fun _ _ h => h.2
      have hkwargs' : Option.Rel (Dict.Rel Value.Alike) kwargs kwargs' := by
        cases hkwargs with
        | none => exact .none
        | some h => exact .some (h.mono fun h => h.2)
      exact hC.callValue_sim (hC.invoke_sim r) hv.2 hargs' hkwargs' hc hs
  have hmatches := eval_sim H (Expr.rel_itself e) s t ⟨.refl s, ht⟩
  exact (hmatches.mono (fun _ _ h => h.1) fun _ _ hu => hu).same_outcome.symm

end Again

/-! ### Flat moments -/

/-- All values in the task are flat, and its code defines nothing inside of what it defines. -/
def Task.Flat : Task → Prop
  | .eval scope _ => scope.Flat
  | .items scope _ => scope.Flat
  | .entries scope _ => scope.Flat
  | .call target args kwargs => target.Flat ∧ List.Forall₂ Value.Alike args args ∧
      Option.Rel (Dict.Rel Value.Alike) kwargs kwargs
  | .display v => v.Flat
  | .instr scope i => scope.Flat ∧ i.Outermost
  | .code scope is => scope.Flat ∧ ∀ i ∈ is, i.Outermost
  | .invoke i => Correspondence.identity.invocation i i
  | .defaults scope _ vars => scope.Flat ∧ Dict.Rel Value.Alike vars vars

/-- Task and renderer are flat. -/
structure Moment.Flat (m : Moment) : Prop where
  renderer : m.renderer.Flat
  task : m.task.Flat

namespace Renderer.Flat

variable {s t : Renderer} {scope : Scope} {r : Nat}

lemma ok_eval (hs : s.Flat) (hscope : scope.Flat) {e : Expr} {v : Value}
    (h : eval (invoke r) scope e s = .ok v t) : v.Flat ∧ t.Flat :=
  hs.of_ok (eval_sim_self hscope e) h

/-- A renderer in which a call is carried out is flat. -/
lemma calling (hs : s.Flat) {kwargs : Option (Dict Value)}
    (hkwargs : Option.Rel (Dict.Rel Value.Alike) kwargs kwargs) : (s.calling kwargs).Flat := by
  have hdeeper : s.deeper.Flat := Correspondence.identity_lawful.deeper hs
  exact hdeeper.set kwargsName (keywordEntry_rel hkwargs)

/-- So is one in which the expression of a call block is evaluated. -/
lemma wrapping (hs : s.Flat) (hscope : scope.Flat) {body : List Instr} (h : ∀ i ∈ body, i.Flat) :
    (s.wrapping body scope).Flat := by
  have hfresh : Renderer.Flat { s with fresh := s.fresh + 1 } := hs.of_same ⟨rfl, rfl, rfl⟩
  exact hfresh.set callerName (.some (.block _ _ (Code.rel_of_flat (fun _ he => ⟨he, rfl⟩) h)
    (hs.context callerName) hscope))

/-- What a call block evaluates to is flat. -/
lemma ok_evalWrapped (hs : s.Flat) (hscope : scope.Flat) {body : List Instr}
    (hbody : ∀ i ∈ body, i.Flat) {e : Expr} {v : Value}
    (h : evalWrapped (invoke r) scope body e s = .ok v t) : v.Flat ∧ t.Flat := by
  have hsim : Correspondence.identity.Sim Value.Alike (evalWrapped (invoke r) scope body e)
      (evalWrapped (invoke r) scope body e) :=
    Correspondence.identity_lawful.evalWrapped_sim (Correspondence.identity_lawful.invoke_sim r)
      (Code.rel_of_flat (fun _ he => ⟨he, rfl⟩) hbody) (Expr.rel_itself e) hscope
  exact hs.of_ok hsim h

/-- The parameters of a flat macro get flat values, which leaves no trace. -/
lemma ok_bindParams (hs : s.Flat) (hscope : scope.Flat) {m : Macro}
    (hm : Macro.Rel Expr.Itself (fun _ => True) m m) {args : List Value}
    (hargs : List.Forall₂ Value.Alike args args) {vars : Dict Value}
    (h : bindParams (invoke r) m scope args s = .ok vars t) :
    Dict.Rel Value.Alike vars vars ∧ s.Same t := by
  have hsim : Correspondence.identity.Sim (Dict.Rel Value.Alike)
      (bindParams (invoke r) m scope args) (bindParams (invoke r) m scope args) :=
    Correspondence.identity_lawful.bindParams_sim (Correspondence.identity_lawful.invoke_sim r) hm
      hargs hscope
  have hsame := hs.same_final hsim
  rw [Run.final_of_ok h] at hsame
  exact ⟨(hs.of_ok hsim h).1, hsame⟩

end Renderer.Flat

lemma Instr.Outermost.content {body : List Instr} {e : Expr} {source : String}
    (h : (Instr.callBlock body e source).Outermost) : ∀ i ∈ body, i.Flat := by
  cases h with
  | flat h =>
    cases h with
    | callBlock _ _ hbody => exact hbody

/-- The parts of a flat moment are flat. -/
lemma Moment.Flat.part {a b : Moment} (ha : a.Flat) (h : Part a b) : b.Flat := by
  obtain ⟨hs, ht⟩ := ha
  have hC := Correspondence.identity_lawful
  cases h with
  | target | indexed | list | map | callee | item | entry => exact ⟨hs, ht⟩
  | place hv | args hv | items hv | entries hv => exact ⟨(hs.ok_eval ht hv).2, ht⟩
  | kwargs hv hvs =>
    have hs₁ := (hs.ok_eval ht hv).2
    exact ⟨(hs₁.of_ok (evalItems_sim_self ht _) hvs).2, ht⟩
  | call hv hvs hnamed =>
    obtain ⟨htarget, hs₁⟩ := hs.ok_eval ht hv
    obtain ⟨hargs, hs₂⟩ := hs₁.of_ok (evalItems_sim_self ht _) hvs
    obtain ⟨hkwargs, hs₃⟩ := hs₂.of_ok (evalEntries_sim_self ht _) hnamed
    exact ⟨hs₃, htarget, hargs, keywords_rel (Expr.entriesRel_itself _) hkwargs⟩
  | closure _ =>
    obtain ⟨htarget, hargs, hkwargs⟩ := ht
    cases htarget with
    | closure _ _ hm hscope => exact ⟨hs.calling hkwargs, .call hm hscope hargs⟩
  | block _ =>
    obtain ⟨htarget, _, hkwargs⟩ := ht
    cases htarget with
    | block _ _ hb ho hscope => exact ⟨hs.calling hkwargs, .block hb ho hscope⟩
  | space _ =>
    cases ht with
    | shown _ hb hscope => exact ⟨hC.deeper hs, .markup hb hscope⟩
  | output => exact ⟨hs, ht.1⟩
  | displayed hv =>
    obtain ⟨hflat, hs₁⟩ := hs.ok_eval ht.1 hv
    exact ⟨hs₁, hflat⟩
  | wrapped => exact ⟨hs.wrapping ht.1 ht.2.content, ht.1⟩
  | wrappedDisplayed hv =>
    obtain ⟨hflat, hs₁⟩ := hs.ok_evalWrapped ht.1 ht.2.content hv
    exact ⟨hs₁, hflat⟩
  | members =>
    obtain ⟨hscope, hi⟩ := ht
    cases hi with
    | flat h => cases h
    | bindSpace _ hmembers _ => exact ⟨hs.openSpace _, hscope, hmembers⟩
  | first =>
    exact ⟨hs, ht.1, ht.2 _ List.mem_cons_self⟩
  | @rest r _ _ _ _ _ _ hi =>
    have hfinal := execInstr_keeps_flat (r := r) ht.1 (ht.2 _ List.mem_cons_self) _ hs
    rw [Run.final_of_ok hi] at hfinal
    exact ⟨hfinal, ht.1, fun j hj => ht.2 j (List.mem_cons_of_mem _ hj)⟩
  | params =>
    cases ht with
    | call hm hscope hargs =>
      exact ⟨hs, hscope, Dict.rel_ofList (positional_rel hm.params hargs)⟩
  | @body r m _ _ _ _ _ hb =>
    cases ht with
    | call hm hscope hargs =>
      obtain ⟨hvars, hsame⟩ := hs.ok_bindParams hscope hm hargs hb
      have hwithout := hC.agree_eraseAll (m.params.map (·.name)) (hs.of_same hsame)
        fun _ _ => trivial
      exact ⟨hwithout, .cons hvars hscope, fun i hi => .flat (hm.body.flat i hi)⟩
  | content =>
    cases ht with
    | block hb ho hscope =>
      exact ⟨hs.set callerName ho, hscope, fun i hi => .flat (hb.flat i hi)⟩
  | markup =>
    cases ht with
    | markup hb hscope => exact ⟨hs, hscope, fun i hi => .flat (hb.flat i hi)⟩
  | default _ _ => exact ⟨hs, .cons ht.2 ht.1⟩
  | filled _ _ hv =>
    obtain ⟨hflat, hs₁⟩ := hs.ok_eval (.cons ht.2 ht.1) hv
    exact ⟨hs₁, ht.1, ht.2.insert _ hflat⟩
  | given _ => exact ⟨hs, ht⟩

/-! ### Runs -/

/-- A renderer that starts with data is flat. -/
lemma Renderer.flat_start {data : Json} {context : Context} (h : Context.ofJson data = .ok context)
    (fresh : Nat) : (Renderer.start context fresh).Flat :=
  ⟨Context.rel_ofJson h, fun _ => .none, rfl⟩

/-- Invoking a macro in a flat moment leaves no trace. -/
lemma Renderer.Flat.invokeMacro_same {s : Renderer} (hs : s.Flat) {m : Macro} {scope : Scope}
    {args : List Value} (h : Correspondence.identity.invocation (.call m scope args)
      (.call m scope args)) (r : Nat) : s.Same ((invokeMacro (invoke r) m scope args).final s) := by
  cases h with
  | call hm hscope hargs =>
    exact hs.same_final (Correspondence.identity_lawful.invokeMacro_sim
      (Correspondence.identity_lawful.invoke_sim r) hm hargs hscope)

/-- **Calls are transparent** where definitions stand at the top level only. No expression evaluated
in the course of a program leaves a trace in the context or in the private table, so that evaluating
it again gives the same; and what a macro hides of the context while its body runs is exactly the
entries named like its parameters. -/
theorem evaluation_transparent {c : Compiler} {entry : SourceFile} {p : Program} {data : Json}
    {context : Context} (hlibrary : c.LibraryOutermost) (hentry : c.Outermost entry)
    (hp : c.compile entry = .ok p) (hdata : Context.ofJson data = .ok context) (fresh : Nat) :
    (∀ {room scope e s},
      (Moment.opening p context fresh).Reaches ⟨room, .eval scope e, s⟩ →
      let act := eval (invoke room) scope e
      (act.final s).context = s.context ∧ (act.final s).symbols = s.symbols ∧
        act.outcome (act.final s) = act.outcome s) ∧
    ∀ {room m scope args s},
      (Moment.opening p context fresh).Reaches ⟨room + 1, .invoke (.call m scope args), s⟩ →
      ((invokeMacro (invoke room) m scope args).final s).context = s.context ∧
      ∀ {inner is t}, Moment.Part ⟨room + 1, .invoke (.call m scope args), s⟩
          ⟨room, .code inner is, t⟩ →
        t.context = s.context.eraseAll (m.params.map (·.name)) := by
  have hopening : (Moment.opening p context fresh).Flat :=
    ⟨Renderer.flat_start hdata fresh, .nil, Compiler.outermost_of_compile hlibrary hentry hp⟩
  constructor
  · intro room scope e s hreach act
    obtain ⟨hs, hscope⟩ := hreach.invariant hopening Moment.Flat.part
    have hsame := hs.same_final (eval_sim_self (r := room) hscope e)
    exact ⟨hsame.context, hsame.symbols, hs.eval_again hscope e hsame⟩
  · intro room m scope args s hreach
    obtain ⟨hs, hi⟩ := hreach.invariant hopening Moment.Flat.part
    refine ⟨(hs.invokeMacro_same hi room).context, fun hpart => ?_⟩
    cases hi with
    | call hm hscope hargs =>
      cases hpart with
      | body hb =>
        have hsame := (hs.ok_bindParams hscope hm hargs hb).2
        exact congrArg (·.eraseAll (m.params.map (·.name))) hsame.context

open Greeting in
/-- The call on the page that imports the file, the invocation of the macro behind it, and the body
of the macro: the entry `name` of the data is hidden in the body and is there again afterwards. -/
theorem greeting_transparent : ∃ s t u m inner is,
    (Moment.opening program context 0).Reaches ⟨maxCallDepth, .eval [] greeting, s⟩ ∧
    ((eval (invoke maxCallDepth) [] greeting).final s).context = s.context ∧
    (Moment.opening program context 0).Reaches
      ⟨127 + 1, .invoke (.call m [] [.string "Ada"]), t⟩ ∧
    ((invokeMacro (invoke 127) m [] [.string "Ada"]).final t).context = t.context ∧
    Moment.Part ⟨127 + 1, .invoke (.call m [] [.string "Ada"]), t⟩ ⟨127, .code inner is, u⟩ ∧
    u.context = t.context.eraseAll ["name", "n"] := by
  obtain ⟨heval, hinvoke⟩ := evaluation_transparent library_outermost
    (outermost_of_read whole_read (by simp [importAll, call, Node.Outermost])) whole_compiled
    data_read 0
  have himport : (Moment.opening program context 0).Reaches
      ⟨maxCallDepth, .code [] [.output greeting], _⟩ := .tail .refl (.rest rfl)
  have hcall : (Moment.opening program context 0).Reaches ⟨maxCallDepth, .eval [] greeting, _⟩ :=
    .tail (.tail himport .first) .output
  have hinvocation : (Moment.opening program context 0).Reaches
      ⟨127 + 1, .invoke (.call _ [] [.string "Ada"]), _⟩ :=
    .tail (.tail hcall (.call rfl rfl rfl)) (.closure (by decide))
  obtain ⟨hrestored, hhidden⟩ := hinvoke hinvocation
  exact ⟨_, _, _, _, _, _, hcall, (heval hcall).1, hinvocation, hrestored, .body rfl,
    hhidden (.body rfl)⟩

end Stencil
