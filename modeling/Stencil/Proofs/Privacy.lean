import Stencil.Proofs.Effect
import Stencil.Proofs.PrivateTable

/-!
Nothing in the private table is missing when it is looked for. The macros that a `from` tag does
not select are put into the table by the same run of linking code as those that refer to them, and
nothing else happens while such a run is under way.

A moment is **sound** (`Moment.Sound`) if it is settled, so that everything in it refers to places
that are filled, or belongs to a run of linking code, in which everything refers to places that are
filled when the run is over. `Renderer.Continues` says in the same way how code goes on after an
instruction. Sound moments have sound parts, and what is filled stays filled
(`Moment.Sound.part`). A program that has been compiled from a file starts soundly and leaves a
sound renderer to the next one, also if it fails (`Program.Compiled.render_sound`). The main result
is `private_macros_found`.
-/

namespace Stencil

/-! ### Moments -/

/-- All code and all values in the task refer to the given places only. -/
def Task.Supplied (K : Set Symbol) : Task → Prop
  | .eval scope e => scope.Supplied K ∧ Supplies K e.references
  | .items scope es => scope.Supplied K ∧ Supplies K (Expr.itemReferences es)
  | .entries scope es => scope.Supplied K ∧ Supplies K (Expr.entryReferences es)
  | .call target args kwargs => target.Supplied K ∧
    List.Forall₂ (Value.Rel (.supplied K)) args args ∧
    Option.Rel (Dict.Rel (Value.Rel (.supplied K))) kwargs kwargs
  | .display v => v.Supplied K
  | .instr scope i => scope.Supplied K ∧ i.Supplied K
  | .code scope is => scope.Supplied K ∧ Code.Supplied K is
  | .invoke i => i.Supplied K
  | .defaults scope ps vars => scope.Supplied K ∧ Supplies K (ps.flatMap Param.references) ∧
    Dict.Rel (Value.Rel (.supplied K)) vars vars

/-- Everything in the moment refers to filled places, or it is one of a run of linking code, in
which everything refers to places that are filled when the run is over. -/
inductive Moment.Sound : Moment → Prop
  | settled {r : Nat} {task : Task} {s : Renderer} : s.Sound → task.Supplied s.filled →
      Sound ⟨r, task, s⟩
  | linking {K : Set Symbol} {r : Nat} {scope : Scope} {i : Instr} {s : Renderer} :
      Linked K [i] → s.Supplied K → scope.Supplied K → Sound ⟨r, .instr scope i, s⟩
  | run {K : Set Symbol} {r : Nat} {scope : Scope} {is run rest : List Instr} {s : Renderer} :
      is = run ++ rest → Linked K run → s.Supplied K → scope.Supplied K →
      (rest ≠ [] → K ⊆ s.filled ∪ hiddenIn run ∧ Code.Supplied K rest) →
      Sound ⟨r, .code scope is, s⟩

/-- Supplied code starts with an instruction that does not link, or with a run of linking code. -/
lemma Code.Supplied.uncons {K : Set Symbol} {i : Instr} {is : List Instr}
    (h : Code.Supplied K (i :: is)) : i.Supplied K ∧ Code.Supplied K is ∨
      ∃ run rest, is = run ++ rest ∧ Linked (K ∪ hiddenIn (i :: run)) (i :: run) ∧
        Code.Supplied (K ∪ hiddenIn (i :: run)) rest := by
  generalize hjs : i :: is = js at h
  cases h with
  | nil => cases hjs
  | text s h =>
    cases hjs
    exact .inl ⟨.text s, h⟩
  | output he h =>
    cases hjs
    exact .inl ⟨.output he, h⟩
  | callBlock source hbody he h =>
    cases hjs
    exact .inl ⟨.callBlock source hbody he, h⟩
  | @link _ front rest hne hlinks hnamed hparams hbody hmarkup hrest =>
    obtain ⟨first, run, rfl⟩ := List.exists_cons_of_ne_nil hne
    cases hjs
    exact .inr ⟨run, rest, rfl,
      ⟨hlinks, hnamed, fun b hb => ⟨hparams b hb, hbody b hb⟩, hmarkup⟩, hrest⟩

/-- How code goes on: with an instruction that does not link, or with one of a run. -/
inductive Renderer.Continues (s : Renderer) (scope : Scope) (i : Instr) (is : List Instr) : Prop
  | settled : s.Sound → scope.Supplied s.filled → i.Supplied s.filled →
      Code.Supplied s.filled is → Continues s scope i is
  | run {K : Set Symbol} {run rest : List Instr} : is = run ++ rest → Linked K (i :: run) →
      s.Supplied K → scope.Supplied K →
      (rest ≠ [] → K ⊆ s.filled ∪ hiddenIn (i :: run) ∧ Code.Supplied K rest) →
      Continues s scope i is

namespace Moment.Sound

variable {a b : Moment} {r : Nat} {scope : Scope} {i : Instr} {is : List Instr} {s t : Renderer}

lemma continues (h : Moment.Sound ⟨r, .code scope (i :: is), s⟩) : s.Continues scope i is := by
  have hsettled (hs : s.Sound) (hscope : scope.Supplied s.filled)
      (his : Code.Supplied s.filled (i :: is)) : s.Continues scope i is := by
    obtain ⟨hi, his⟩ | ⟨run, rest, heq, hrun, hrest⟩ := his.uncons
    · exact .settled hs hscope hi his
    · exact .run heq hrun (hs.mono Set.subset_union_left) (hscope.mono Set.subset_union_left)
        fun _ => ⟨subset_rfl, hrest⟩
  cases h with
  | settled hs ht => exact hsettled hs ht.1 ht.2
  | @run K _ _ _ run rest _ heq hrun hs hscope hrest =>
    cases run with
    | cons first run =>
      cases heq
      exact .run rfl hrun hs hscope hrest
    | nil =>
      -- the run is over, so that everything it refers to is filled
      cases heq
      obtain ⟨hK, hcode⟩ := hrest (by simp)
      rw [hiddenIn_nil, Set.union_empty] at hK
      exact hsettled (hs.mono hK) (hscope.mono hK) (hcode.mono hK)

/-- After an instruction the rest of the code goes on soundly. -/
lemma rest (h : s.Continues scope i is) {out : String}
    (hi : execInstr (invoke r) scope i s = .ok out t) :
    Moment.Sound ⟨r, .code scope is, t⟩ ∧ s.filled ⊆ t.filled := by
  cases h with
  | settled hs hscope hinstr his =>
    obtain ⟨ht, hst, _⟩ := (execInstr_sound (invoke_sound r) hinstr hs hscope).of_ok hi
    exact ⟨.settled ht ⟨hscope.mono hst, his.mono hst⟩, hst⟩
  | @run K run rest heq hrun hs hscope hrest =>
    obtain ⟨hfirst, hrun⟩ := hrun.uncons
    obtain ⟨hsupplied, hgrows, hfills⟩ := execInstr_linked hscope i hfirst hs hi
    refine ⟨.run heq hrun hsupplied hscope fun hne => ?_, hgrows⟩
    obtain ⟨hK, hcode⟩ := hrest hne
    rw [← List.singleton_append, hiddenIn_append, ← Set.union_assoc] at hK
    exact ⟨hK.trans (Set.union_subset_union_left _ (Set.union_subset hgrows hfills)), hcode⟩

/-- An output does not link, so that it is settled. -/
lemma output_parts {e : Expr} (h : Moment.Sound ⟨r, .instr scope (.output e), s⟩) :
    s.Sound ∧ scope.Supplied s.filled ∧ Supplies s.filled e.references := by
  cases h with
  | linking hlinked _ _ => cases hlinked.links _ List.mem_cons_self
  | settled hs ht =>
    obtain ⟨hscope, hinstr⟩ := ht
    cases hinstr with
    | output he => exact ⟨hs, hscope, he⟩

/-- So is a call block. -/
lemma callBlock_parts {body : List Instr} {e : Expr} {source : String}
    (h : Moment.Sound ⟨r, .instr scope (.callBlock body e source), s⟩) :
    s.Sound ∧ scope.Supplied s.filled ∧ Code.Supplied s.filled body ∧
      Supplies s.filled e.references := by
  cases h with
  | linking hlinked _ _ => cases hlinked.links _ List.mem_cons_self
  | settled hs ht =>
    obtain ⟨hscope, hinstr⟩ := ht
    cases hinstr with
    | callBlock _ hbody he => exact ⟨hs, hscope, hbody, he⟩

/-- The parts of a sound moment are sound, and all that was filled still is. -/
lemma part (ha : a.Sound) (h : Part a b) :
    b.Sound ∧ a.renderer.filled ⊆ b.renderer.filled := by
  have hI := invoke_sound
  cases h with
  | first =>
    cases ha.continues with
    | settled hs hscope hi _ => exact ⟨.settled hs ⟨hscope, hi⟩, subset_rfl⟩
    | run _ hrun hs hscope _ => exact ⟨.linking hrun.uncons.1 hs hscope, subset_rfl⟩
  | rest hi => exact rest ha.continues hi
  | members =>
    cases ha with
    | settled _ ht => cases ht.2
    | linking hlinked hs hscope =>
      exact ⟨.run (List.append_nil _).symm hlinked.space.1 (hs.openSpace _) hscope
        fun h => absurd rfl h, subset_rfl⟩
  | output =>
    obtain ⟨hs, hscope, he⟩ := ha.output_parts
    exact ⟨.settled hs ⟨hscope, he⟩, subset_rfl⟩
  | @displayed r _ _ _ _ _ hv =>
    obtain ⟨hs, hscope, he⟩ := ha.output_parts
    obtain ⟨ht, hst, hvalue⟩ := (eval_sound (hI r) _ hs hscope he).of_ok hv
    exact ⟨.settled ht hvalue, hst⟩
  | wrapped =>
    obtain ⟨hs, hscope, hbody, he⟩ := ha.callBlock_parts
    exact ⟨.settled (hs.wrapping hscope hbody) ⟨hscope, he⟩, subset_rfl⟩
  | @wrappedDisplayed r _ _ _ _ _ _ _ hv =>
    obtain ⟨hs, hscope, hbody, he⟩ := ha.callBlock_parts
    obtain ⟨ht, hst, hvalue⟩ := (evalWrapped_sound (hI r) hs hscope hbody he).of_ok hv
    exact ⟨.settled ht hvalue, hst⟩
  | target =>
    obtain ⟨hs, hscope, he⟩ := ha
    exact ⟨.settled hs ⟨hscope, he⟩, subset_rfl⟩
  | indexed =>
    obtain ⟨hs, hscope, he⟩ := ha
    exact ⟨.settled hs ⟨hscope, (supplies_append.1 he).1⟩, subset_rfl⟩
  | @place r _ _ _ _ _ _ hv =>
    obtain ⟨hs, hscope, he⟩ := ha
    obtain ⟨ht, hst, _⟩ := (eval_sound (hI r) _ hs hscope (supplies_append.1 he).1).of_ok hv
    exact ⟨.settled ht ⟨hscope.mono hst, (supplies_append.1 he).2.mono hst⟩, hst⟩
  | list =>
    obtain ⟨hs, hscope, he⟩ := ha
    exact ⟨.settled hs ⟨hscope, he⟩, subset_rfl⟩
  | map =>
    obtain ⟨hs, hscope, he⟩ := ha
    exact ⟨.settled hs ⟨hscope, he⟩, subset_rfl⟩
  | callee =>
    obtain ⟨hs, hscope, he⟩ := ha
    have hc := (supplies_append.1 (supplies_append.1 he).1).1
    exact ⟨.settled hs ⟨hscope, hc⟩, subset_rfl⟩
  | @args r _ _ _ _ _ _ _ hv =>
    obtain ⟨hs, hscope, he⟩ := ha
    obtain ⟨hc, hargs⟩ := supplies_append.1 (supplies_append.1 he).1
    obtain ⟨ht, hst, _⟩ := (eval_sound (hI r) _ hs hscope hc).of_ok hv
    exact ⟨.settled ht ⟨hscope.mono hst, hargs.mono hst⟩, hst⟩
  | @kwargs r _ _ _ _ _ _ _ _ _ hv hvs =>
    obtain ⟨hs, hscope, he⟩ := ha
    obtain ⟨hcode, hks⟩ := supplies_append.1 he
    obtain ⟨hc, hargs⟩ := supplies_append.1 hcode
    obtain ⟨ht, hst, _⟩ := (eval_sound (hI r) _ hs hscope hc).of_ok hv
    obtain ⟨hu, htu, _⟩ :=
      (evalItems_sound (hI r) _ ht (hscope.mono hst) (hargs.mono hst)).of_ok hvs
    have hsu := hst.trans htu
    exact ⟨.settled hu ⟨hscope.mono hsu, hks.mono hsu⟩, hsu⟩
  | @call r _ _ _ ks _ _ _ _ _ _ _ hv hvs hnamed =>
    obtain ⟨hs, hscope, he⟩ := ha
    obtain ⟨hcode, hks⟩ := supplies_append.1 he
    obtain ⟨hc, hargs⟩ := supplies_append.1 hcode
    obtain ⟨ht, hst, htarget⟩ := (eval_sound (hI r) _ hs hscope hc).of_ok hv
    obtain ⟨hu, htu, hvalues⟩ :=
      (evalItems_sound (hI r) _ ht (hscope.mono hst) (hargs.mono hst)).of_ok hvs
    have hsu := hst.trans htu
    obtain ⟨hw, huw, hentries⟩ :=
      (evalEntries_sound (hI r) _ hu (hscope.mono hsu) (hks.mono hsu)).of_ok hnamed
    refine ⟨.settled hw ⟨htarget.mono (htu.trans huw),
      Value.Rel.items_mono (CodeRel.supplied_le huw) hvalues, ?_⟩, hsu.trans huw⟩
    split
    · exact .none
    · exact .some (Dict.rel_ofList hentries)
  | item =>
    obtain ⟨hs, hscope, he⟩ := ha
    exact ⟨.settled hs ⟨hscope, (supplies_append.1 he).1⟩, subset_rfl⟩
  | @items r _ _ _ _ _ _ hv =>
    obtain ⟨hs, hscope, he⟩ := ha
    obtain ⟨ht, hst, _⟩ := (eval_sound (hI r) _ hs hscope (supplies_append.1 he).1).of_ok hv
    exact ⟨.settled ht ⟨hscope.mono hst, (supplies_append.1 he).2.mono hst⟩, hst⟩
  | entry =>
    obtain ⟨hs, hscope, he⟩ := ha
    exact ⟨.settled hs ⟨hscope, (supplies_append.1 he).1⟩, subset_rfl⟩
  | @entries r _ _ _ _ _ _ _ hv =>
    obtain ⟨hs, hscope, he⟩ := ha
    obtain ⟨ht, hst, _⟩ := (eval_sound (hI r) _ hs hscope (supplies_append.1 he).1).of_ok hv
    exact ⟨.settled ht ⟨hscope.mono hst, (supplies_append.1 he).2.mono hst⟩, hst⟩
  | closure _ =>
    obtain ⟨hs, htarget, hargs, hkwargs⟩ := ha
    cases htarget with
    | closure _ _ hm hscope =>
      exact ⟨.settled (hs.calling hkwargs) ⟨hm.2, hscope, hargs⟩, subset_rfl⟩
  | block _ =>
    obtain ⟨hs, htarget, _, hkwargs⟩ := ha
    cases htarget with
    | block _ _ hb ho hscope =>
      exact ⟨.settled (hs.calling hkwargs) ⟨hb.2, ho, hscope⟩, subset_rfl⟩
  | space _ =>
    obtain ⟨hs, hv⟩ := ha
    cases hv with
    | shown _ hb hscope => exact ⟨.settled (hs.of_eq rfl rfl) ⟨hb.2, hscope⟩, subset_rfl⟩
  | @params _ m =>
    obtain ⟨hs, hm, hscope, hargs⟩ := ha
    have hpositional := Dict.rel_ofList (positional_rel (Param.rel_itself m.params) hargs)
    exact ⟨.settled hs ⟨hscope, hm.params, hpositional⟩, subset_rfl⟩
  | @body r _ _ _ _ _ _ hb =>
    obtain ⟨hs, hm, hscope, hargs⟩ := ha
    obtain ⟨ht, hst, hvars⟩ := (bindParams_sound (hI r) hs hm hscope hargs).of_ok hb
    exact ⟨.settled (ht.eraseAll _) ⟨.cons hvars (hscope.mono hst), hm.body.mono hst⟩, hst⟩
  | content =>
    obtain ⟨hs, hb, ho, hscope⟩ := ha
    exact ⟨.settled (hs.set callerName ho) ⟨hscope, hb⟩, subset_rfl⟩
  | markup =>
    obtain ⟨hs, hb, hscope⟩ := ha
    exact ⟨.settled hs ⟨hscope, hb⟩, subset_rfl⟩
  | default hd _ =>
    obtain ⟨hs, hscope, hps, hvars⟩ := ha
    exact ⟨.settled hs ⟨.cons hvars hscope, Supplies.default hps hd⟩, subset_rfl⟩
  | @filled r _ _ _ _ _ _ _ _ hd _ hv =>
    obtain ⟨hs, hscope, hps, hvars⟩ := ha
    obtain ⟨ht, hst, hvalue⟩ :=
      (eval_sound (hI r) _ hs (.cons hvars hscope) (Supplies.default hps hd)).of_ok hv
    exact ⟨.settled ht ⟨hscope.mono hst, (supplies_append.1 hps).2.mono hst,
      (hvars.mono fun h => h.mono (CodeRel.supplied_le hst)).insert _ hvalue⟩, hst⟩
  | given _ =>
    obtain ⟨hs, hscope, hps, hvars⟩ := ha
    exact ⟨.settled hs ⟨hscope, (supplies_append.1 hps).2, hvars⟩, subset_rfl⟩

/-- What is in the private table is in its place. -/
lemma named (h : a.Sound) : ∀ key v, a.renderer.symbols.get? key = some v → v.Names key := by
  cases h with
  | settled hs _ => exact hs.named
  | linking _ hs _ => exact hs.named
  | run _ _ hs _ _ => exact hs.named

/-- A place that is referred to holds its macro. -/
lemma symbol {key : Symbol} (h : Moment.Sound ⟨r, .eval scope (.symbol key), s⟩) :
    ∃ v, s.symbols.get? key = some v ∧ v.Names key := by
  obtain ⟨hs, _, hkey⟩ := h
  obtain ⟨v, hv⟩ := Option.isSome_iff_exists.1 (hkey key List.mem_cons_self)
  exact ⟨v, hv, hs.named key v hv⟩

/-- A macro is put in its place. -/
lemma define {key : Symbol} {m : Macro}
    (h : Moment.Sound ⟨r, .instr scope (.define (.hidden key) m), s⟩) :
    key = ⟨m.file, m.name⟩ := by
  cases h with
  | settled _ ht => cases ht.2
  | linking hlinked _ _ => exact hlinked.named _ List.mem_cons_self key rfl

end Moment.Sound

/-! ### Programs one after the other -/

/-- Values without macros and without contents of call blocks, in which what namespaces show brings
along whatever it refers to in the private table. -/
def CodeRel.noMacros : CodeRel where
  macros _ _ _ := False
  contents _ _ _ := False
  markups _ is is' := is = is' ∧ Code.Supplied ∅ is

/-- The context holds no macros. -/
def Context.HoldsNoMacros (context : Context) : Prop :=
  ∀ name, Option.Rel (Value.Rel .noMacros) (context.get? name) (context.get? name)

/-- The program is compiled from a file. -/
def Program.Compiled (p : Program) : Prop :=
  ∃ (c : Compiler) (entry : SourceFile), c.compile entry = .ok p

/-- The renderer after programs have run one after the other, whether they have failed or not. -/
def Renderer.after (s : Renderer) (ps : List Program) : Renderer :=
  ps.foldl (fun s p => (Renderer.render p).final s) s

lemma Context.HoldsNoMacros.sound {context : Context} (h : context.HoldsNoMacros) (fresh : Nat) :
    (Renderer.start context fresh).Sound := by
  have hle : CodeRel.noMacros.Le (.supplied (Renderer.start context fresh).filled) :=
    ⟨fun h => h.elim, fun h => h.elim, fun h => ⟨h.1, h.2.mono (Set.empty_subset _)⟩⟩
  refine ⟨fun k => ?_, fun _ => .none, fun _ _ hv => nomatch hv⟩
  have hk := h k
  show Option.Rel _ (context.get? k) (context.get? k)
  generalize context.get? k = o at hk ⊢
  cases hk with
  | none => exact .none
  | some hv => exact .some (hv.mono hle)

/-- A compiled program leaves a sound renderer, and all that was filled still is. -/
lemma Program.Compiled.render_sound {p : Program} (hp : p.Compiled) {s : Renderer}
    (hs : s.Sound) : (Renderer.render p).Sound (fun _ _ => True) s := by
  obtain ⟨c, entry, hcompile⟩ := hp
  exact exec_sound (invoke_sound maxCallDepth) (Compiler.supplied_of_compile hcompile) hs
    (Set.empty_subset _) .nil

lemma Renderer.after_sound {ps : List Program} (hps : ∀ p ∈ ps, p.Compiled) {s : Renderer}
    (hs : s.Sound) : (s.after ps).Sound := by
  induction ps generalizing s with
  | nil => exact hs
  | cons p ps ih =>
    rw [List.forall_mem_cons] at hps
    exact ih hps.2 (hps.1.render_sound hs).final

/-- **The private table is never found wanting.** Let a renderer start with a context that holds no
macros, and compiled programs run on it one after the other. What is in the private table is then
the macro of its file and name, and so it is at every moment of another program, which removes
nothing, whether it fails or not; wherever it looks up a place, the macro is there, whatever the
context says, and it puts nothing into a place but the macro of that file and name. -/
theorem private_macros_found {context : Context} (hcontext : context.HoldsNoMacros) (fresh : Nat)
    {ps : List Program} (hps : ∀ p ∈ ps, p.Compiled) {q : Program} (hq : q.Compiled) :
    let s := (Renderer.start context fresh).after ps
    (∀ key v, s.symbols.get? key = some v → v.Names key) ∧
      s.filled ⊆ ((Renderer.render q).final s).filled ∧
      ∀ room task t, Moment.Reaches ⟨maxCallDepth, .code [] q.instrs, s⟩ ⟨room, task, t⟩ →
        (∀ key v, t.symbols.get? key = some v → v.Names key) ∧ s.filled ⊆ t.filled ∧
        (∀ scope key, task = .eval scope (.symbol key) → ∃ v : Value, v.Names key ∧
          ∀ invoker (f : Context → Context),
            eval invoker scope (.symbol key) (t.mapContext f) = .ok v (t.mapContext f)) ∧
        ∀ scope key m, task = .instr scope (.define (.hidden key) m) →
          key = ⟨m.file, m.name⟩ := by
  intro s
  have hs : s.Sound := Renderer.after_sound hps (hcontext.sound fresh)
  have hsupplied : Code.Supplied ∅ q.instrs := by
    obtain ⟨c, entry, hcompile⟩ := hq
    exact Compiler.supplied_of_compile hcompile
  refine ⟨hs.named, (hq.render_sound hs).grows, fun room task t hreach => ?_⟩
  obtain ⟨hsound, hkept⟩ := hreach.invariant
    (P := fun m => m.Sound ∧ s.filled ⊆ m.renderer.filled)
    ⟨.settled hs ⟨.nil, hsupplied.mono (Set.empty_subset _)⟩, subset_rfl⟩
    fun ha hab => ⟨(ha.1.part hab).1, ha.2.trans (ha.1.part hab).2⟩
  refine ⟨hsound.named, hkept, ?_, ?_⟩
  · rintro scope key rfl
    obtain ⟨v, hv, hnames⟩ := hsound.symbol
    refine ⟨v, hnames, fun invoker f => ?_⟩
    have hget : (t.mapContext f).symbols.get? key = some v := hv
    have heval : eval invoker scope (.symbol key) (t.mapContext f) =
        .ok (((t.mapContext f).symbols.get? key).getD .undefined) (t.mapContext f) := rfl
    rw [heval, hget, Option.getD_some]
  · rintro scope key m rfl
    exact hsound.define

namespace Greeting

/-- The page that imports one of the macros, compiled. -/
def pickedProgram : Program :=
  ⟨"page", selected ++ [.output (.call (.context "hi") [.context "name"] [])]⟩

lemma picked_compiled : pickedProgram.Compiled := by
  let u := compiler.scope ⟨"page", picked⟩
  have himport : u.nodes [] [importNames] = .ok selected := FileScope.nodes_singleton picked_selects
  exact ⟨compiler, _, Compiler.compile_of_nodes picked_read
    (FileScope.nodes_append himport (FileScope.nodes_output u _))⟩

/-- The page looks up the macro that was not imported, and can run again. -/
theorem picked_finds_sibling : context.HoldsNoMacros ∧ pickedProgram.Compiled ∧
    (∀ key v, ((Renderer.start context 0).after [pickedProgram]).symbols.get? key = some v →
      v.Names key) ∧
    ∃ scope t, (Moment.opening pickedProgram context 0).Reaches
        ⟨127, .eval scope (.symbol ⟨"lib", "b"⟩), t⟩ ∧
      ∃ v : Value, v.Names ⟨"lib", "b"⟩ ∧ ∀ invoker (f : Context → Context),
        eval invoker scope (.symbol ⟨"lib", "b"⟩) (t.mapContext f) = .ok v (t.mapContext f) := by
  have hcontext : context.HoldsNoMacros := Context.rel_ofJson data_read
  have hagain := private_macros_found hcontext 0
    (List.forall_mem_singleton.2 picked_compiled) picked_compiled
  have hfirst := private_macros_found hcontext 0 (List.forall_mem_nil _) picked_compiled
  have hcode : (Moment.opening pickedProgram context 0).Reaches
      ⟨maxCallDepth, .code [] [.output (.call (.context "hi") [.context "name"] [])], _⟩ :=
    .tail (.tail .refl (.rest rfl)) (.rest rfl)
  have hcall : (Moment.opening pickedProgram context 0).Reaches
      ⟨127 + 1, .invoke (.call _ [] [.string "Ada"]), _⟩ :=
    .tail (.tail (.tail (.tail hcode .first) .output) (.call rfl rfl rfl)) (.closure (by decide))
  have hdefault : (Moment.opening pickedProgram context 0).Reaches
      ⟨127, .eval _ (.call (.symbol ⟨"lib", "b"⟩) [.param "name"] []), _⟩ :=
    .tail (.tail (.tail hcall .params) (.given (.inl rfl))) (.default rfl rfl)
  have hsymbol := hdefault.tail .callee
  exact ⟨hcontext, picked_compiled, hagain.1, _, _, hsymbol,
    (hfirst.2.2 _ _ _ hsymbol).2.2.1 _ _ rfl⟩

end Greeting

end Stencil
