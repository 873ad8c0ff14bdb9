import Stencil.Proofs.Correspondence
import Stencil.Proofs.TopLevel

/-!
Code beside itself. In the **identity correspondence** every reference corresponds to itself, so
that a renderer agrees with itself exactly if all code in it is flat (`Renderer.Flat`). Expressions
and flat instructions then leave no trace, and instructions that define nothing inside of what they
define at least keep the renderer flat (`exec_keeps_flat`).
-/

namespace Stencil

/-! ### Flat code corresponds to itself -/

section Code

variable {ref : Expr → Expr → Prop} {is is' : List Instr}

lemma Code.rel_cons_of_flat (href : ∀ e, Expr.IsReference e → ref e e) {i : Instr} (h : i.Flat) :
    ∀ {is is' : List Instr}, Code.Rel ref is is' → Code.Rel ref (i :: is) (i :: is') := by
  induction h with
  | text s => exact .text s
  | output e => exact .output (.refl href e)
  | @callBlock body e source _ ih =>
    have hbody : Code.Rel ref body body := by
      induction body with
      | nil => exact .nil
      | cons j rest ihrest =>
        rw [List.forall_mem_cons] at ih
        exact ih.1 (ihrest (by simp_all) ih.2)
    intro _ _ hrest
    exact .callBlock source source hbody (.refl href e) hrest

/-- Flat instructions correspond to themselves if references do. -/
lemma Code.rel_of_flat (href : ∀ e, Expr.IsReference e → ref e e) (h : ∀ i ∈ is, i.Flat) :
    Code.Rel ref is is := by
  induction is with
  | nil => exact .nil
  | cons i rest ih =>
    rw [List.forall_mem_cons] at h
    exact rel_cons_of_flat href h.1 (ih h.2)

/-- Code that corresponds to some code is flat. -/
lemma Code.Rel.flat (h : Code.Rel ref is is') : ∀ i ∈ is, i.Flat := by
  induction h with
  | nil => exact fun _ hi => nomatch hi
  | text s _ ih => exact List.forall_mem_cons.2 ⟨.text s, ih⟩
  | output _ _ ih => exact List.forall_mem_cons.2 ⟨.output _, ih⟩
  | callBlock source _ _ _ _ ihbody ih =>
    exact List.forall_mem_cons.2 ⟨.callBlock _ source ihbody, ih⟩

end Code

/-! ### The identity correspondence -/

/-- A reference and itself. -/
def Expr.Itself (e e' : Expr) : Prop :=
  e.IsReference ∧ e = e'

/-- Values that differ in identities at most, all of whose code is flat. -/
abbrev Value.Alike : Value → Value → Prop :=
  Value.Rel (.flat Expr.Itself fun _ => True)

/-- Renderers that differ in identities at most, all of whose code is flat. -/
structure Renderer.Alike (s s' : Renderer) : Prop where
  context : ∀ k, Option.Rel Value.Alike (s.context.get? k) (s'.context.get? k)
  symbols : ∀ k, Option.Rel Value.Alike (s.symbols.get? k) (s'.symbols.get? k)
  depth : s.depth = s'.depth

lemma Expr.Rel.eq_of_itself {e e' : Expr} (h : Expr.Rel Expr.Itself e e') : e = e' :=
  h.eq fun _ _ hr => hr.2

lemma Expr.rel_itself (e : Expr) : Expr.Rel Expr.Itself e e :=
  .refl (fun _ h => ⟨h, rfl⟩) e

lemma Expr.entriesRel_itself (es : List (String × Expr)) : Expr.EntriesRel Expr.Itself es es :=
  .refl (fun _ h => ⟨h, rfl⟩) es

namespace Renderer.Alike

variable {s s' : Renderer} {v v' : Value}

/-- Setting an entry to related values keeps renderers alike. -/
lemma set (h : Alike s s') (name : String) {o o' : Option Value}
    (ho : Option.Rel Value.Alike o o') :
    Alike (s.mapContext (·.set name o)) (s'.mapContext (·.set name o')) := by
  refine ⟨fun k => ?_, h.symbols, h.depth⟩
  show Option.Rel Value.Alike ((s.context.set name o).get? k) ((s'.context.set name o').get? k)
  rw [Context.get?_set, Context.get?_set]
  split
  · exact ho
  · exact h.context k

/-- So does opening a namespace. -/
lemma openSpace (h : Alike s s') (handle : String) :
    Alike (s.mapContext (·.openSpace handle)) (s'.mapContext (·.openSpace handle)) := by
  obtain ⟨hmembers, hspace⟩ := Context.space_rel (h.context handle)
  exact h.set handle (.some (hspace hmembers))

/-- So does closing one. -/
lemma closeSpace (h : Alike s s') (handle : String) {body body' : List Instr}
    (hbody : Code.Rel Expr.Itself body body') {scope scope' : Scope}
    (hscope : Scope.Rel (.flat Expr.Itself fun _ => True) scope scope') :
    Alike (s.mapContext (·.closeSpace handle body scope))
      (s'.mapContext (·.closeSpace handle body' scope')) := by
  obtain ⟨hmembers, _⟩ := Context.space_rel (h.context handle)
  exact h.set handle (.some (.shown hmembers hbody hscope))

/-- So does putting related values where a binding says. -/
lemma bind (h : Alike s s') (target : Binding) (hv : Value.Alike v v') :
    Alike (s.bind target v) (s'.bind target v') := by
  cases target with
  | context name => exact h.set name (.some hv)
  | member handle name =>
    obtain ⟨hmembers, hspace⟩ := Context.space_rel (h.context handle)
    exact h.set handle (.some (hspace (hmembers.insert name hv)))
  | hidden key =>
    refine ⟨h.context, fun k => ?_, h.depth⟩
    show Option.Rel Value.Alike ((s.symbols.insert key v).get? k)
      ((s'.symbols.insert key v').get? k)
    rw [SymbolTable.get?_insert, SymbolTable.get?_insert]
    split
    · exact .some hv
    · exact h.symbols k

end Renderer.Alike

/-- Every reference corresponds to itself. -/
def Correspondence.identity : Correspondence where
  ref := Expr.Itself
  free _ := True
  agree := Renderer.Alike
  error := Eq

lemma Correspondence.identity_lawful : identity.Lawful where
  free_caller := trivial
  free_kwargs := trivial
  depth_eq hs := hs.depth
  same := by
    intro s s' t t' hs ht
    refine ⟨fun k => ?_, fun k => ?_, ?_⟩
    · rw [ht.1.context, ht.2.context]
      exact hs.context k
    · rw [ht.1.symbols, ht.2.symbols]
      exact hs.symbols k
    · rw [ht.1.depth, ht.2.depth]
      exact hs.depth
  deeper hs := ⟨hs.context, hs.symbols, congrArg (· + 1) hs.depth⟩
  get? hs _ := hs.context _
  set hs _ hv := hs.set _ hv
  reference := by
    rintro s s' e _ scope scope' hs ⟨he, rfl⟩ hscope
    cases he with
    | var name =>
      exact ⟨_, _, .getD (Value.Rel.or (hscope.get? name) (hs.context name)), fun _ _ => ⟨rfl, rfl⟩⟩
    | param name => exact ⟨_, _, .getD (hscope.get? name), fun _ _ => ⟨rfl, rfl⟩⟩
    | context name => exact ⟨_, _, .getD (hs.context name), fun _ _ => ⟨rfl, rfl⟩⟩
    | symbol key => exact ⟨_, _, .getD (hs.symbols key), fun _ _ => ⟨rfl, rfl⟩⟩
  notCallable type hc :=
    congrArg (fun c : Expr => RenderError.notCallable type c.describe) hc.eq_of_itself
  callDepth hc := congrArg (fun c : Expr => RenderError.callDepth c.describe) hc.eq_of_itself
  error_refl _ := rfl

/-! ### Flat values and renderers -/

/-- All code in the value defines nothing. -/
def Value.Flat (v : Value) : Prop :=
  v.Alike v

/-- All code in the values of the parameters defines nothing. -/
def Scope.Flat (scope : Scope) : Prop :=
  Scope.Rel Correspondence.identity.code scope scope

/-- All code in the context and in the private table defines nothing. -/
def Renderer.Flat (s : Renderer) : Prop :=
  s.Alike s

section Flat

variable {α : Type} {V : α → α → Prop} {act : Run α} {s t : Renderer} {scope : Scope} {r : Nat}

/-- What leaves no trace beside itself leaves none. -/
lemma Renderer.Flat.same_final (hs : s.Flat) (h : Correspondence.identity.Sim V act act) :
    s.Same (act.final s) :=
  (h hs s s (.refl s s)).final.1

/-- A renderer without a trace is flat again. -/
lemma Renderer.Flat.of_same (hs : s.Flat) (h : s.Same t) : t.Flat :=
  Correspondence.identity_lawful.same hs ⟨h, h⟩

/-- What is found beside itself has a result related to itself and leaves a flat renderer. -/
lemma Renderer.Flat.of_ok {a : α} (hs : s.Flat) (h : Correspondence.identity.Sim V act act)
    (hr : act s = .ok a t) : V a a ∧ t.Flat := by
  have hmatches := h hs s s (.refl s s)
  rw [hr] at hmatches
  cases hmatches with
  | ok hv ht => exact ⟨hv, hs.of_same ht.1⟩

/-- An expression leaves no trace. -/
lemma eval_sim_self (hscope : scope.Flat) (e : Expr) :
    Correspondence.identity.Sim Value.Alike (eval (invoke r) scope e) (eval (invoke r) scope e) :=
  Correspondence.identity_lawful.eval_sim (Correspondence.identity_lawful.invoke_sim r)
    (Expr.rel_itself e) hscope

lemma evalItems_sim_self (hscope : scope.Flat) (es : List Expr) :
    Correspondence.identity.Sim (List.Forall₂ Value.Alike) (evalItems (invoke r) scope es)
      (evalItems (invoke r) scope es) :=
  fun hs => evalItems_sim (Correspondence.identity_lawful.evalSim
    (Correspondence.identity_lawful.invoke_sim r) hs hscope) (.refl (fun _ h => ⟨h, rfl⟩) es)

lemma evalEntries_sim_self (hscope : scope.Flat) (es : List (String × Expr)) :
    Correspondence.identity.Sim (List.Forall₂ (Dict.EntryRel Value.Alike))
      (evalEntries (invoke r) scope es) (evalEntries (invoke r) scope es) :=
  fun hs => evalEntries_sim (Correspondence.identity_lawful.evalSim
    (Correspondence.identity_lawful.invoke_sim r) hs hscope) (Expr.entriesRel_itself es)

end Flat

/-! ### Definitions at the top level -/

section Outermost

variable {s : Renderer} {scope : Scope} {r : Nat}

/-- A macro with a flat body corresponds to itself. -/
lemma Macro.rel_of_flat {m : Macro} (h : ∀ i ∈ m.body, i.Flat) :
    Macro.Rel Expr.Itself (fun _ => True) m m where
  params := by
    refine List.forall₂_same.2 fun p _ => ⟨rfl, ?_⟩
    cases p.default with
    | none => exact .none
    | some e => exact .some (Expr.rel_itself e)
  free _ _ := trivial
  body := Code.rel_of_flat (fun _ he => ⟨he, rfl⟩) h

/-- A flat instruction leaves no trace. -/
lemma Renderer.Flat.execInstr_same (hs : s.Flat) (hscope : scope.Flat) {i : Instr} (h : i.Flat) :
    s.Same ((execInstr (invoke r) scope i).final s) := by
  have hcode : Code.Rel Correspondence.identity.ref [i] [i] :=
    Code.rel_cons_of_flat (fun _ he => ⟨he, rfl⟩) h .nil
  have hexec := hs.same_final (Correspondence.identity_lawful.exec_sim
    (Correspondence.identity_lawful.invoke_sim r) hcode hscope)
  have hfinal : (exec (invoke r) scope [i]).final s = (execInstr (invoke r) scope i).final s :=
    Run.final_bind_pure (· ++ "") (execInstr (invoke r) scope i) s
  rwa [hfinal] at hexec

mutual

/-- An instruction keeps the renderer flat if it defines nothing inside of what it defines. -/
lemma execInstr_keeps_flat (hscope : scope.Flat) : ∀ {i : Instr}, i.Outermost →
    (execInstr (invoke r) scope i).Keeps Renderer.Flat
  | _, .flat h => fun _ hs => hs.of_same (hs.execInstr_same hscope h)
  | _, .define (m := m) target hm => fun s hs =>
    have hfresh : Renderer.Flat { s with fresh := s.fresh + 1 } := hs.of_same ⟨rfl, rfl, rfl⟩
    hfresh.bind target (.closure s.fresh s.fresh (Macro.rel_of_flat hm) hscope)
  | _, .bindSpace handle hmembers hmarkup =>
    Run.Keeps.bind (fun _ hs => hs.openSpace handle) fun _ =>
      Run.Keeps.bind (exec_keeps_flat hscope hmembers) fun _ =>
        Run.Keeps.bind (fun _ hs => hs.closeSpace handle
          (Code.rel_of_flat (fun _ he => ⟨he, rfl⟩) hmarkup) hscope) fun _ => .pure _

/-- So do instructions. -/
lemma exec_keeps_flat (hscope : scope.Flat) : ∀ {is : List Instr}, (∀ i ∈ is, i.Outermost) →
    (exec (invoke r) scope is).Keeps Renderer.Flat
  | [], _ => .pure _
  | i :: _, h =>
    Run.Keeps.bind (execInstr_keeps_flat hscope (h i List.mem_cons_self)) fun _ =>
      Run.Keeps.bind (exec_keeps_flat hscope fun j hj => h j (List.mem_cons_of_mem i hj)) fun _ =>
        .pure _

end

end Outermost

end Stencil
