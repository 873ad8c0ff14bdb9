import Mathlib.Data.List.Nodup
import Mathlib.Logic.Equiv.Basic
import Stencil.Proofs.Parameters
import Stencil.Proofs.Simulation

/-!
One program in the terms of another. A `Translation` says which references of the two programs
correspond, depending on the place where they stand (`Translation.Env`), and which names the entries
of the context have on the second side (`Translation.name`). `Translation.Code` relates code that
differs only in these, definitions and imports included.

The main result is `Translation.Lawful.render_sim`: a program and its translation, run in contexts
that correspond, put out the same or fail alike, and leave contexts that correspond. The place of
the code that is run has to fit the parameters in scope (`Translation.fits`), which is passed on
from the place of a macro to that of its body by every call (`Macro.Binds`). Corresponding contexts
have the same size, so that a snapshot wins on both sides or on none.
-/

namespace Stencil

/-! ### Names of the context -/

namespace Context

variable {c c' : Context} {σ : Equiv.Perm String}

lemma mem_keys {k : String} : k ∈ c.keys ↔ (c.get? k).isSome :=
  Dict.isSome_find?.symm

lemma keys_pairwise (c : Context) : c.keys.Pairwise (· < ·) :=
  List.pairwise_map.2 c.entries.sorted

lemma keys_nodup (c : Context) : c.keys.Nodup := by
  refine c.keys_pairwise.imp fun {a b} hlt heq => ?_
  rw [heq] at hlt
  exact String.lt_irrefl b hlt

/-- Contexts with the same entries up to the names have the same names up to a permutation. -/
lemma keys_perm (h : ∀ k, (c.get? k).isSome ↔ (c'.get? (σ k)).isSome) :
    (c.keys.map σ).Perm c'.keys := by
  have hnodup := (List.nodup_map_iff σ.injective).2 c.keys_nodup
  refine (List.perm_ext_iff_of_nodup hnodup c'.keys_nodup).2 fun k => ?_
  rw [List.mem_map, mem_keys]
  constructor
  · rintro ⟨x, hx, rfl⟩
    exact (h x).1 (mem_keys.1 hx)
  · intro hk
    refine ⟨σ.symm k, mem_keys.2 ((h _).2 ?_), σ.apply_symm_apply k⟩
    rwa [σ.apply_symm_apply]

lemma size_eq (h : ∀ k, (c.get? k).isSome ↔ (c'.get? (σ k)).isSome) : c.size = c'.size := by
  have hlength := (keys_perm h).length_eq
  rwa [List.length_map, keys, keys, Dict.keys, Dict.keys, List.length_map, List.length_map]
    at hlength

/-- Contexts with entries for the same names have the same names in the same order. -/
lemma keys_eq (h : ∀ k, (c.get? k).isSome ↔ (c'.get? k).isSome) : c.keys = c'.keys := by
  have hperm := keys_perm (σ := Equiv.refl String) h
  rw [Equiv.coe_refl, List.map_id] at hperm
  exact hperm.eq_of_pairwise (fun _ _ _ _ hab hba => absurd hba (String.lt_asymm hab))
    c.keys_pairwise c'.keys_pairwise

end Context

/-! ### Translations -/

/-- The binding with another name for the entry of the context. -/
def Binding.rename (σ : String → String) : Binding → Binding
  | .context name => .context (σ name)
  | .member handle name => .member (σ handle) name
  | .hidden key => .hidden key

/-- Two ways of writing a program. -/
structure Translation where
  /-- What is known of the place where code stands. -/
  Env : Type
  /-- The place inside of a macro that is defined at a place. -/
  enter : Env → Macro → Env
  /-- The place inside of a namespace. -/
  inSpace : Env → Env
  /-- The parameters in scope, on the first side, are those of the place. -/
  fits : Env → Scope → Prop
  /-- References that correspond. -/
  ref : Env → Expr → Expr → Prop
  /-- The names that entries of the context have on the second side. -/
  name : Equiv.Perm String
  /-- Errors that count as the same. -/
  error : RenderError → RenderError → Prop

namespace Translation

/-- Code that says the same on both sides. -/
inductive Code (T : Translation) : T.Env → List Instr → List Instr → Prop
  | nil (E : T.Env) : Code T E [] []
  | text {E : T.Env} (s : String) {is is' : List Instr} : Code T E is is' →
      Code T E (.text s :: is) (.text s :: is')
  | output {E : T.Env} {e e' : Expr} {is is' : List Instr} : Expr.Rel (T.ref E) e e' →
      Code T E is is' → Code T E (.output e :: is) (.output e' :: is')
  | define {E : T.Env} (target : Binding) {m m' : Macro} {is is' : List Instr} :
      List.Forall₂ (Param.Rel (T.ref (T.enter E m))) m.params m'.params →
      (∀ p ∈ m.params, T.name p.name = p.name) → Code T (T.enter E m) m.body m'.body →
      Code T E is is' →
      Code T E (.define target m :: is) (.define (target.rename T.name) m' :: is')
  | callBlock {E : T.Env} {body body' : List Instr} {e e' : Expr} (source source' : String)
      {is is' : List Instr} : Code T E body body' → Expr.Rel (T.ref E) e e' → Code T E is is' →
      Code T E (.callBlock body e source :: is) (.callBlock body' e' source' :: is')
  | bindSpace {E : T.Env} (handle : String) {members members' markup markup' is is' : List Instr} :
      Code T (T.inSpace E) members members' → Code T (T.inSpace E) markup markup' →
      Code T E is is' → Code T E (.bindSpace handle members markup :: is)
        (.bindSpace (T.name handle) members' markup' :: is')

lemma Code.append {T : Translation} {E : T.Env} {is is' js js' : List Instr} (h : T.Code E is is')
    (hj : T.Code E js js') : T.Code E (is ++ js) (is' ++ js') := by
  induction h with
  | nil => exact hj
  | text s _ ih => exact .text s (ih hj)
  | output he _ ih => exact .output he (ih hj)
  | define target hparams hfixed hbody _ _ ih => exact .define target hparams hfixed hbody (ih hj)
  | callBlock source source' hbody he _ _ ih => exact .callBlock source source' hbody he (ih hj)
  | bindSpace handle hmembers hmarkup _ _ _ ih => exact .bindSpace handle hmembers hmarkup (ih hj)

/-- Macros that say the same on both sides. -/
structure Macros (T : Translation) (E : T.Env) (m m' : Macro) : Prop where
  params : List.Forall₂ (Param.Rel (T.ref (T.enter E m))) m.params m'.params
  fixed : ∀ p ∈ m.params, T.name p.name = p.name
  body : T.Code (T.enter E m) m.body m'.body

variable (T : Translation)

/-- The code that corresponds, closed over parameters that its place fits. -/
def code : CodeRel where
  macros scope m m' := ∃ E, T.fits E scope ∧ T.Macros E m m'
  contents scope is is' := ∃ E, T.fits E scope ∧ T.Code E is is'
  markups scope is is' := ∃ E, T.fits E scope ∧ T.Code E is is'

/-- The values that correspond. -/
abbrev value : Value → Value → Prop :=
  Value.Rel T.code

/-- Contexts with corresponding values under corresponding names. -/
def Contexts (c c' : Context) : Prop :=
  ∀ k, Option.Rel T.value (c.get? k) (c'.get? (T.name k))

/-- Renderers with corresponding values under corresponding names and at the same private places. -/
structure Agree (s s' : Renderer) : Prop where
  context : T.Contexts s.context s'.context
  symbols : ∀ key, Option.Rel T.value (s.symbols.get? key) (s'.symbols.get? key)
  depth : s.depth = s'.depth

/-- From renderers that agree, both computations end alike, in renderers that agree. -/
abbrev Sim {α β : Type} (V : α → β → Prop) (act : Run α) (act' : Run β) : Prop :=
  Run.Sim T.Agree T.error V act act'

/-- Invocations that correspond. -/
inductive Invocations : Invocation → Invocation → Prop
  | call {m m' : Macro} {s s' : Scope} {args args' : List Value} : T.code.macros s m m' →
      Scope.Rel T.code s s' → List.Forall₂ T.value args args' →
      Invocations (.call m s args) (.call m' s' args')
  | block {b b' : List Instr} {o o' : Option Value} {s s' : Scope} : T.code.contents s b b' →
      Option.Rel T.value o o' → Scope.Rel T.code s s' → Invocations (.block b o s) (.block b' o' s')
  | markup {b b' : List Instr} {s s' : Scope} : T.code.markups s b b' → Scope.Rel T.code s s' →
      Invocations (.markup b s) (.markup b' s')

/-- What makes a translation one. -/
structure Lawful : Prop where
  caller : T.name callerName = callerName
  kwargs : T.name kwargsName = kwargsName
  inSpace : ∀ {E scope}, T.fits E scope → T.fits (T.inSpace E) scope
  enter : ∀ {E scope m d}, T.fits E scope → m.Binds scope d → T.fits (T.enter E m) (d :: scope)
  reference : ∀ {E e e' scope scope' s s'}, T.ref E e e' → T.fits E scope →
    Scope.Rel T.code scope scope' → T.Agree s s' → ∃ v v', T.value v v' ∧
      ∀ invoker invoker', eval invoker scope e s = .ok v s ∧ eval invoker' scope' e' s' = .ok v' s'
  notCallable : ∀ {E c c'} type, Expr.Rel (T.ref E) c c' →
    T.error (.notCallable type c.describe) (.notCallable type c'.describe)
  callDepth : ∀ {E c c'}, Expr.Rel (T.ref E) c c' →
    T.error (.callDepth c.describe) (.callDepth c'.describe)
  error_refl : ∀ e, T.error e e

variable {T}

/-! ### Renderers that agree -/

namespace Contexts

variable {c c' d d' : Context}

lemma isSome_iff (h : T.Contexts c c') (k : String) :
    (c.get? k).isSome ↔ (c'.get? (T.name k)).isSome := by
  have hk := h k
  generalize c.get? k = o at hk ⊢
  generalize c'.get? (T.name k) = o' at hk ⊢
  cases hk <;> rfl

lemma set (h : T.Contexts c c') (k : String) {v v' : Option Value}
    (hv : Option.Rel T.value v v') : T.Contexts (c.set k v) (c'.set (T.name k) v') := by
  intro x
  rw [Context.get?_set, Context.get?_set]
  simp only [T.name.apply_eq_iff_eq]
  split
  · exact hv
  · exact h x

/-- Names that are the same on both sides are removed on both sides. -/
lemma eraseAll (h : T.Contexts c c') {names : List String} (hfixed : ∀ k ∈ names, T.name k = k) :
    T.Contexts (c.eraseAll names) (c'.eraseAll names) := by
  intro x
  have hmem : T.name x ∈ names ↔ x ∈ names := by
    constructor
    · intro hx
      rwa [T.name.injective (hfixed _ hx)] at hx
    · intro hx
      rwa [hfixed x hx]
  rw [Context.get?_eraseAll, Context.get?_eraseAll]
  simp only [hmem]
  split
  · exact .none
  · exact h x

/-- The same of the two contexts wins on both sides. -/
lemma restore (h : T.Contexts c c') (hd : T.Contexts d d') :
    T.Contexts (c.restore d) (c'.restore d') := by
  have hc := Context.size_eq h.isSome_iff
  have hd' := Context.size_eq hd.isSome_iff
  intro x
  by_cases hle : c.size ≤ d.size
  · rw [Context.get?_restore_of_le hle, Context.get?_restore_of_le (hc ▸ hd' ▸ hle)]
    exact Value.Rel.or (hd x) (h x)
  · have hlt := Nat.not_le.1 hle
    rw [Context.get?_restore_of_lt hlt, Context.get?_restore_of_lt (hc ▸ hd' ▸ hlt)]
    exact Value.Rel.or (h x) (hd x)

end Contexts

namespace Agree

variable {s s' : Renderer} {v v' : Value}

lemma set (h : T.Agree s s') (k : String) {o o' : Option Value} (ho : Option.Rel T.value o o') :
    T.Agree (s.mapContext (·.set k o)) (s'.mapContext (·.set (T.name k) o')) :=
  ⟨h.context.set k ho, h.symbols, h.depth⟩

lemma eraseAll (h : T.Agree s s') {names : List String} (hfixed : ∀ k ∈ names, T.name k = k) :
    T.Agree (s.mapContext (·.eraseAll names)) (s'.mapContext (·.eraseAll names)) :=
  ⟨h.context.eraseAll hfixed, h.symbols, h.depth⟩

/-- Data are the same on both sides if the names in them are. -/
lemma start {data : Json} {context : Context} (h : Context.ofJson data = .ok context)
    (hfixed : ∀ k, (context.get? k).isSome → T.name k = k) (fresh : Nat) :
    T.Agree (.start context fresh) (.start context fresh) := by
  refine ⟨fun k => ?_, fun _ => .none, rfl⟩
  have hdata : Option.Rel T.value (context.get? k) (context.get? k) := Context.rel_ofJson h k
  by_cases hk : (context.get? k).isSome
  · rw [hfixed k hk]
    exact hdata
  · -- the other name is not in the data either, since it would be that of `k`
    have hname : ¬ (context.get? (T.name k)).isSome := fun hname =>
      hk (T.name.injective (hfixed _ hname) ▸ hname)
    show Option.Rel T.value (context.get? k) (context.get? (T.name k))
    rw [Option.not_isSome_iff_eq_none.1 hk, Option.not_isSome_iff_eq_none.1 hname]
    exact .none

/-- Identities do not matter. -/
lemma renew (h : T.Agree s s') (n n' : Nat) :
    T.Agree { s with fresh := n } { s' with fresh := n' } :=
  ⟨h.context, h.symbols, h.depth⟩

lemma openSpace (h : T.Agree s s') (handle : String) :
    T.Agree (s.mapContext (·.openSpace handle)) (s'.mapContext (·.openSpace (T.name handle))) := by
  obtain ⟨hmembers, hspace⟩ := Context.space_rel (h.context handle)
  exact h.set handle (.some (hspace hmembers))

lemma closeSpace (h : T.Agree s s') (handle : String) {body body' : List Instr}
    {scope scope' : Scope} (hbody : T.code.markups scope body body')
    (hscope : Scope.Rel T.code scope scope') :
    T.Agree (s.mapContext (·.closeSpace handle body scope))
      (s'.mapContext (·.closeSpace (T.name handle) body' scope')) := by
  obtain ⟨hmembers, _⟩ := Context.space_rel (h.context handle)
  exact h.set handle (.some (.shown hmembers hbody hscope))

/-- Putting corresponding values at corresponding places keeps renderers in agreement. -/
lemma bind (h : T.Agree s s') (target : Binding) (hv : T.value v v') :
    T.Agree (s.bind target v) (s'.bind (target.rename T.name) v') := by
  cases target with
  | context name => exact h.set name (.some hv)
  | member handle name =>
    obtain ⟨hmembers, hspace⟩ := Context.space_rel (h.context handle)
    exact h.set handle (.some (hspace (hmembers.insert name hv)))
  | hidden key =>
    refine ⟨h.context, fun k => ?_, h.depth⟩
    show Option.Rel T.value ((s.symbols.insert key v).get? k) ((s'.symbols.insert key v').get? k)
    rw [SymbolTable.get?_insert, SymbolTable.get?_insert]
    split
    · exact .some hv
    · exact h.symbols k

end Agree

/-! ### Entries and depth -/

section Frame

variable {α β : Type} {V : α → β → Prop} {act : Run α} {act' : Run β}

/-- Replacing corresponding entries for a computation. -/
lemma sim_withEntry (k : String) {v v' : Option Value} (hv : Option.Rel T.value v v')
    (h : T.Sim V act act') :
    T.Sim V (Run.withEntry k v act) (Run.withEntry (T.name k) v' act') :=
  fun _ _ hs => Run.Matches.ensuring (h _ _ (hs.set k hv))
    fun _ _ ht => ht.set k (hs.context k)

lemma sim_nested {what what' : String} (hwhat : T.error (.callDepth what) (.callDepth what'))
    (h : T.Sim V act act') : T.Sim V (Run.nested what act) (Run.nested what' act') := by
  intro s s' hs
  rw [Run.nested, Run.nested, ← hs.depth]
  split
  · exact .error hwhat hs
  · have hdeeper : T.Agree { s with depth := s.depth + 1 } { s' with depth := s.depth + 1 } :=
      ⟨hs.context, hs.symbols, rfl⟩
    exact Run.Matches.ensuring (h _ _ hdeeper)
      fun _ _ ht => ⟨ht.context, ht.symbols, congrArg (· - 1) ht.depth⟩

lemma sim_modify {f f' : Renderer → Renderer} (h : ∀ {s s'}, T.Agree s s' → T.Agree (f s) (f' s')) :
    T.Sim (fun _ _ => True) (modify f) (modify f') :=
  fun _ _ hs => .ok trivial (h hs)

end Frame

/-! ### One level of invocations -/

namespace Lawful

variable (hT : T.Lawful)

include hT

section Level

variable {r : Nat} (hI : ∀ {i i'}, T.Invocations i i' → T.Sim Eq (invoke r i) (invoke r i'))
  {E : T.Env} {scope scope' : Scope}

include hI

/-- Corresponding calls end alike. -/
lemma callValue_sim {target target' : Value} {args args' : List Value}
    {kwargs kwargs' : Option (Dict Value)} {c c' : Expr} (ht : T.value target target')
    (hargs : List.Forall₂ T.value args args')
    (hkwargs : Option.Rel (Dict.Rel T.value) kwargs kwargs') (hc : Expr.Rel (T.ref E) c c') :
    T.Sim T.value (callValue (invoke r) target args kwargs c.describe)
      (callValue (invoke r) target' args' kwargs' c'.describe) := by
  have enter {i i' : Invocation} (hi : T.Invocations i i') :
      T.Sim T.value
        (Run.nested c.describe (Run.withEntry kwargsName (kwargs.map .map) (invoke r i)) >>=
          fun out => pure (.string out))
        (Run.nested c'.describe (Run.withEntry kwargsName (kwargs'.map .map) (invoke r i')) >>=
          fun out => pure (.string out)) := by
    have hwith := sim_withEntry kwargsName (keywordEntry_rel hkwargs) (hI hi)
    have hnested := sim_nested (hT.callDepth hc) hwith
    rw [hT.kwargs] at hnested
    refine hnested.bind ?_
    rintro out _ rfl
    exact .pure (.string out)
  cases ht with
  | undefined => exact .pure .undefined
  | nothing => exact .pure .undefined
  | closure _ _ hm hscope => exact enter (.call hm hscope hargs)
  | block _ _ hb ho hscope => exact enter (.block hb ho hscope)
  | _ => exact .throw (hT.notCallable _ hc)

/-- References and calls evaluate alike in scopes that their place fits. -/
lemma evalSim (hfits : T.fits E scope) (hscope : Scope.Rel T.code scope scope') :
    EvalSim (T.ref E) T.Agree T.error T.value (invoke r) (invoke r) scope scope' := by
  refine ⟨Value.Likeness.congruence T.value, fun hr s s' hs => ?_, hT.callValue_sim hI⟩
  obtain ⟨v, v', hv, heval⟩ := hT.reference hr hfits hscope hs
  obtain ⟨h, h'⟩ := heval (invoke r) (invoke r)
  rw [h, h']
  exact .ok hv hs

/-- Corresponding expressions evaluate alike in scopes that their place fits. -/
lemma eval_sim {e e' : Expr} (he : Expr.Rel (T.ref E) e e') (hfits : T.fits E scope)
    (hscope : Scope.Rel T.code scope scope') :
    T.Sim T.value (eval (invoke r) scope e) (eval (invoke r) scope' e') :=
  Stencil.eval_sim (hT.evalSim hI hfits hscope) he

/-- Corresponding values show the same. -/
lemma display_sim {v v' : Value} (hv : T.value v v') :
    T.Sim Eq (display (invoke r) v) (display (invoke r) v') := by
  have htext := hv.text_eq
  cases hv with
  | shown _ hb hscope => exact sim_nested (hT.error_refl _) (hI (.markup hb hscope))
  | _ => exact .pure htext

/-- Corresponding call blocks evaluate alike. -/
lemma evalWrapped_sim {body body' : List Instr} {e e' : Expr} (hbody : T.Code E body body')
    (he : Expr.Rel (T.ref E) e e') (hfits : T.fits E scope)
    (hscope : Scope.Rel T.code scope scope') :
    T.Sim T.value (evalWrapped (invoke r) scope body e)
      (evalWrapped (invoke r) scope' body' e') := by
  intro s s' hs
  have houter := hs.context callerName
  rw [hT.caller] at houter
  have hblock : Option.Rel T.value
      (some (.block s.fresh body (s.context.get? callerName) scope))
      (some (.block s'.fresh body' (s'.context.get? callerName) scope')) :=
    .some (.block _ _ ⟨E, hfits, hbody⟩ houter hscope)
  have hwith := sim_withEntry callerName hblock (hT.eval_sim hI he hfits hscope)
  rw [hT.caller] at hwith
  exact hwith _ _ (hs.renew (s.fresh + 1) (s'.fresh + 1))

/-- Corresponding code puts out the same. -/
lemma exec_sim {is is' : List Instr} (h : T.Code E is is') (hfits : T.fits E scope)
    (hscope : Scope.Rel T.code scope scope') :
    T.Sim Eq (exec (invoke r) scope is) (exec (invoke r) scope' is') := by
  let C : Run.Comparison := .sim T.Agree T.error
  induction h with
  | nil => exact .pure rfl
  | text str _ ih => exact C.concat (.pure rfl) (ih hfits)
  | output he _ ih =>
    exact C.concat ((hT.eval_sim hI he hfits hscope).bind fun _ _ => hT.display_sim hI) (ih hfits)
  | callBlock _ _ hbody he _ _ ih =>
    exact C.concat ((hT.evalWrapped_sim hI hbody he hfits hscope).bind fun _ _ => hT.display_sim hI)
      (ih hfits)
  | define target hparams hfixed hbody _ _ ih =>
    refine C.concat (fun s s' hs => .ok rfl ?_) (ih hfits)
    have hclosure := Value.Rel.closure s.fresh s'.fresh
      (R := T.code) ⟨_, hfits, hparams, hfixed, hbody⟩ hscope
    exact (hs.renew (s.fresh + 1) (s'.fresh + 1)).bind target hclosure
  | bindSpace handle _ hmarkup _ ihmembers _ ih =>
    refine C.concat ?_ (ih hfits)
    refine (sim_modify fun hs => hs.openSpace handle).bind fun _ _ _ => ?_
    refine (ihmembers (hT.inSpace hfits)).bind fun out out' hout => ?_
    refine (sim_modify fun hs => ?_).bind fun _ _ _ => .pure hout
    exact hs.closeSpace handle ⟨_, hT.inSpace hfits, hmarkup⟩ hscope

/-- Corresponding defaults are filled in alike, where the parameters have the values that the place
inside of the macro fits. -/
lemma fillDefaults_sim {m : Macro} {ps' : List Param} {vars vars' : Dict Value}
    (hps : List.Forall₂ (Param.Rel (T.ref (T.enter E m))) m.params ps')
    (hbinds : m.Binds scope vars) (hvars : Dict.Rel T.value vars vars') (hfits : T.fits E scope)
    (hscope : Scope.Rel T.code scope scope') :
    T.Sim (fun vars vars' => m.Binds scope vars ∧ Dict.Rel T.value vars vars')
      (fillDefaults (invoke r) scope m.params vars) (fillDefaults (invoke r) scope' ps' vars') := by
  refine fillDefaults_compare (C := .sim T.Agree T.error) And.right hps ?_ ⟨hbinds, hvars⟩
  rintro p e e' vars vars' hp hd he ⟨hbinds, hvars⟩
  refine ⟨_, (hT.eval_sim hI he (hT.enter hfits hbinds) (.cons hvars hscope)).and_ok, ?_⟩
  rintro v v' ⟨hv, s, t, hvalue⟩
  exact ⟨hbinds.default hp hd hvalue, hvars.insert p.name hv⟩

/-- Corresponding macros bind their parameters alike. -/
lemma bindParams_sim {m m' : Macro} {args args' : List Value} (hm : T.Macros E m m')
    (hargs : List.Forall₂ T.value args args') (hfits : T.fits E scope)
    (hscope : Scope.Rel T.code scope scope') :
    T.Sim (Dict.Rel T.value) (bindParams (invoke r) m scope args)
      (bindParams (invoke r) m' scope' args') := by
  have hfirst : Dict.Rel T.value (.ofList (positional m.params args))
      (.ofList (positional m'.params args')) :=
    Dict.rel_ofList (positional_rel hm.params hargs)
  have hfill := hT.fillDefaults_sim hI hm.params (.arguments args) hfirst hfits hscope
  refine hfill.bind ?_
  rintro vars vars' ⟨_, hvars⟩ s s' hs
  have hkwargs := hs.context kwargsName
  rw [hT.kwargs] at hkwargs
  exact .ok (applyKeywords_rel (Context.kwargs_rel hkwargs) hm.params hvars) hs

/-- Corresponding macros are invoked alike. -/
lemma invokeMacro_sim {m m' : Macro} {args args' : List Value} (hm : T.Macros E m m')
    (hargs : List.Forall₂ T.value args args') (hfits : T.fits E scope)
    (hscope : Scope.Rel T.code scope scope') :
    T.Sim Eq (invokeMacro (invoke r) m scope args) (invokeMacro (invoke r) m' scope' args') := by
  intro s s' hs
  have hbind := hT.bindParams_sim hI hm hargs hfits hscope s s' hs
  refine invokeMacro_matches hbind hm.params (fun _ _ ht => ht) ?_
  intro vars vars' t t' hr hvars ht
  have hfixed : ∀ k ∈ m.params.map (·.name), T.name k = k := List.forall_mem_map.2 hm.fixed
  have hinner := hT.enter hfits (binds_of_bindParams hr)
  have hbody := hT.exec_sim hI hm.body hinner (.cons hvars hscope) _ _ (ht.eraseAll hfixed)
  exact hbody.ensuring fun u u' hu => ⟨hu.context.restore hs.context, hu.symbols, hu.depth⟩

/-- Corresponding invocations end alike if those inside them do. -/
lemma carryOut_sim {i i' : Invocation} (hi : T.Invocations i i') :
    T.Sim Eq (carryOut (invoke r) i) (carryOut (invoke r) i') := by
  cases hi with
  | call hm hscope hargs =>
    obtain ⟨E, hfits, hm⟩ := hm
    exact hT.invokeMacro_sim hI hm hargs hfits hscope
  | block hb ho hscope =>
    obtain ⟨E, hfits, hb⟩ := hb
    have hwith := sim_withEntry callerName ho (hT.exec_sim hI hb hfits hscope)
    rwa [hT.caller] at hwith
  | markup hb hscope =>
    obtain ⟨E, hfits, hb⟩ := hb
    exact hT.exec_sim hI hb hfits hscope

end Level

/-! ### All levels -/

/-- Corresponding invocations end alike. -/
lemma invoke_sim (r : Nat) {i i' : Invocation} (hi : T.Invocations i i') :
    T.Sim Eq (invoke r i) (invoke r i') := by
  induction r generalizing i i' with
  | zero => exact .throw (hT.error_refl _)
  | succ r ih => exact hT.carryOut_sim ih hi

/-- A program and its translation put out the same or fail alike, and leave renderers that agree. -/
lemma render_sim {E : T.Env} (hE : T.fits E []) {p p' : Program} (h : T.Code E p.instrs p'.instrs) :
    T.Sim Eq (Renderer.render p) (Renderer.render p') :=
  hT.exec_sim (hT.invoke_sim maxCallDepth) h hE .nil

end Lawful

end Translation

end Stencil
