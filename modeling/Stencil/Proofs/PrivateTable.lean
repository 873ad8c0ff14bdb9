import Stencil.Proofs.Simulation
import Stencil.Proofs.Supply

/-!
The private table while code runs. A renderer is **sound** (`Renderer.Sound`) if all code in its
values refers to filled places of its private table only, and each of these holds the macro of its
file and name. A computation is sound (`Run.Sound`) if it leaves a sound renderer, whether it fails
or not, in which all that was filled still is. The sets of filled places only grow, and so do the
values that refer to them only (`Value.Supplied.mono`), which is what makes it possible to take one
step after the other.

Running supplied code is sound (`exec_sound`), and so is everything that it leads to
(`invoke_sound`). Only while linking code runs the renderer need not be sound: the macros that have
been bound may refer to places that the run is going to fill (`exec_linked`).
-/

namespace Stencil

/-! ### Values and renderers -/

/-- The code in values, if it refers to the given places of the private table only. -/
def CodeRel.supplied (K : Set Symbol) : CodeRel where
  macros _ m m' := m = m' ∧ m.Supplied K
  contents _ is is' := is = is' ∧ Code.Supplied K is
  markups _ is is' := is = is' ∧ Code.Supplied K is

/-- All code in the value refers to the given places only. -/
abbrev Value.Supplied (K : Set Symbol) (v : Value) : Prop :=
  Value.Rel (.supplied K) v v

/-- So for the parameters in scope. -/
abbrev Scope.Supplied (K : Set Symbol) (scope : Scope) : Prop :=
  Scope.Rel (.supplied K) scope scope

/-- The value is a macro of that file and name. -/
inductive Value.Names (key : Symbol) : Value → Prop
  | closure (id : Nat) {m : Macro} (scope : Scope) : m.file = key.file → m.name = key.name →
      Names key (.closure id m scope)

namespace Renderer

/-- The places of the private table that hold something. -/
def filled (s : Renderer) : Set Symbol :=
  {key | (s.symbols.get? key).isSome}

/-- All code in the values of the renderer refers to the given places only, and what is in the
private table is in its place. -/
structure Supplied (K : Set Symbol) (s : Renderer) : Prop where
  context : ∀ k, Option.Rel (Value.Rel (.supplied K)) (s.context.get? k) (s.context.get? k)
  symbols : ∀ key, Option.Rel (Value.Rel (.supplied K)) (s.symbols.get? key) (s.symbols.get? key)
  named : ∀ key v, s.symbols.get? key = some v → v.Names key

/-- All code in the values of the renderer refers to places that are filled. -/
def Sound (s : Renderer) : Prop :=
  s.Supplied s.filled

end Renderer

section Supplied

variable {K K' : Set Symbol} {s t : Renderer} {scope : Scope}

lemma CodeRel.supplied_le (hK : K ⊆ K') : (CodeRel.supplied K).Le (.supplied K') where
  macros h := ⟨h.1, h.2.params.mono hK, h.2.body.mono hK⟩
  contents h := ⟨h.1, h.2.mono hK⟩
  markups h := ⟨h.1, h.2.mono hK⟩

lemma Value.Supplied.mono {v : Value} (h : v.Supplied K) (hK : K ⊆ K') : v.Supplied K' :=
  Value.Rel.mono (CodeRel.supplied_le hK) h

lemma Scope.Supplied.mono (h : scope.Supplied K) (hK : K ⊆ K') : scope.Supplied K' :=
  Value.Rel.scope_mono (CodeRel.supplied_le hK) h

lemma Value.optionSupplied_mono {o : Option Value}
    (h : Option.Rel (Value.Rel (.supplied K)) o o) (hK : K ⊆ K') :
    Option.Rel (Value.Rel (.supplied K')) o o := by
  cases h with
  | none => exact .none
  | some hv => exact .some (Value.Supplied.mono hv hK)

namespace Renderer.Supplied

lemma mono (h : s.Supplied K) (hK : K ⊆ K') : s.Supplied K' :=
  ⟨fun k => Value.optionSupplied_mono (h.context k) hK,
    fun key => Value.optionSupplied_mono (h.symbols key) hK, h.named⟩

/-- Depth and identities do not matter. -/
lemma of_eq (h : s.Supplied K) (hcontext : t.context = s.context)
    (hsymbols : t.symbols = s.symbols) : t.Supplied K := by
  obtain ⟨hc, hs, hn⟩ := h
  rw [← hcontext] at hc
  rw [← hsymbols] at hs hn
  exact ⟨hc, hs, hn⟩

lemma set (h : s.Supplied K) (name : String) {o : Option Value}
    (ho : Option.Rel (Value.Rel (.supplied K)) o o) :
    (s.mapContext (·.set name o)).Supplied K := by
  refine ⟨fun k => ?_, h.symbols, h.named⟩
  show Option.Rel _ ((s.context.set name o).get? k) ((s.context.set name o).get? k)
  rw [Context.get?_set]
  split
  · exact ho
  · exact h.context k

lemma eraseAll (h : s.Supplied K) (names : List String) :
    (s.mapContext (·.eraseAll names)).Supplied K := by
  refine ⟨fun k => ?_, h.symbols, h.named⟩
  show Option.Rel _ ((s.context.eraseAll names).get? k) ((s.context.eraseAll names).get? k)
  rw [Context.get?_eraseAll]
  split
  · exact .none
  · exact h.context k

/-- Of two entries, one is kept. -/
lemma restore (h : s.Supplied K) {before : Renderer} (hbefore : before.Supplied K) :
    (s.mapContext (·.restore before.context)).Supplied K := by
  refine ⟨fun k => ?_, h.symbols, h.named⟩
  show Option.Rel _ ((s.context.restore before.context).get? k)
    ((s.context.restore before.context).get? k)
  by_cases hle : s.context.size ≤ before.context.size
  · rw [Context.get?_restore_of_le hle]
    exact Value.Rel.or (hbefore.context k) (h.context k)
  · rw [Context.get?_restore_of_lt (Nat.not_le.1 hle)]
    exact Value.Rel.or (h.context k) (hbefore.context k)

lemma openSpace (h : s.Supplied K) (handle : String) :
    (s.mapContext (·.openSpace handle)).Supplied K :=
  have hspace := Context.space_rel (h.context handle)
  h.set handle (.some (hspace.2 hspace.1))

lemma closeSpace (h : s.Supplied K) (handle : String) {markup : List Instr}
    (hmarkup : Code.Supplied K markup) (hscope : scope.Supplied K) :
    (s.mapContext (·.closeSpace handle markup scope)).Supplied K :=
  h.set handle (.some (.shown (Context.space_rel (h.context handle)).1 ⟨rfl, hmarkup⟩ hscope))

/-- A definition puts a supplied macro in its place. -/
lemma bind (h : s.Supplied K) {target : Binding} {m : Macro} (hm : m.Supplied K)
    (hnamed : ∀ key, target = .hidden key → key = ⟨m.file, m.name⟩) (hscope : scope.Supplied K)
    (id : Nat) : (s.bind target (.closure id m scope)).Supplied K := by
  have hv : Value.Rel (.supplied K) (.closure id m scope) (.closure id m scope) :=
    .closure id id ⟨rfl, hm⟩ hscope
  cases target with
  | context name => exact h.set name (.some hv)
  | member handle name =>
    have hspace := Context.space_rel (h.context handle)
    exact h.set handle (.some (hspace.2 (hspace.1.insert name hv)))
  | hidden key =>
    refine ⟨h.context, fun k => ?_, fun k v hk => ?_⟩
    · show Option.Rel _ ((s.symbols.insert key _).get? k) ((s.symbols.insert key _).get? k)
      rw [SymbolTable.get?_insert]
      split
      · exact .some hv
      · exact h.symbols k
    · change (s.symbols.insert key _).get? k = some v at hk
      rw [SymbolTable.get?_insert] at hk
      split at hk
      next hkey =>
        cases hk
        rw [← hkey, hnamed key rfl]
        exact .closure id scope rfl rfl
      next => exact h.named k v hk

end Renderer.Supplied

/-- A definition fills its place and empties none. -/
lemma Renderer.filled_bind (s : Renderer) (target : Binding) (v : Value) :
    (s.bind target v).filled = s.filled ∪ {key | target = .hidden key} := by
  ext key
  cases target with
  | context name => simp [Renderer.filled, Renderer.bind, Renderer.mapContext]
  | member handle name => simp [Renderer.filled, Renderer.bind, Renderer.mapContext]
  | hidden place =>
    show (((s.symbols.insert place v).get? key).isSome = true) ↔
      (s.symbols.get? key).isSome = true ∨ Binding.hidden place = .hidden key
    rw [SymbolTable.get?_insert]
    split <;> simp [*]

end Supplied

/-! ### Linking -/

section Linking

variable {K : Set Symbol} {invoker : Invoker} {scope : Scope} {i : Instr} {is : List Instr}

/-- A run of linking code consists of its first instruction and the rest. -/
lemma Linked.uncons (h : Linked K (i :: is)) : Linked K [i] ∧ Linked K is := by
  have hbound : allBound (i :: is) = allBound [i] ++ allBound is := by
    rw [← allBound_append, List.singleton_append]
  have hshown : allShown (i :: is) = allShown [i] ++ allShown is := by
    rw [← allShown_append, List.singleton_append]
  obtain ⟨hlinks, hnamed, hmacros, hmarkups⟩ := h
  rw [List.forall_mem_cons] at hlinks
  rw [hbound, List.forall_mem_append] at hnamed hmacros
  rw [hshown, List.forall_mem_append] at hmarkups
  exact ⟨⟨List.forall_mem_singleton.2 hlinks.1, hnamed.1, hmacros.1, hmarkups.1⟩,
    hlinks.2, hnamed.2, hmacros.2, hmarkups.2⟩

/-- A namespace in linking code consists of linking code. -/
lemma Linked.space {handle : String} {members markup : List Instr}
    (h : Linked K [.bindSpace handle members markup]) :
    Linked K members ∧ Code.Supplied K markup := by
  obtain ⟨hlinks, hnamed, hmacros, hmarkups⟩ := h
  have hbound : allBound [.bindSpace handle members markup] = allBound members :=
    List.append_nil _
  have hshown : allShown [.bindSpace handle members markup] = allShown members ++ [markup] :=
    List.append_nil _
  rw [hbound] at hnamed hmacros
  rw [hshown, List.forall_mem_append, List.forall_mem_singleton] at hmarkups
  obtain _ | ⟨_, _, hmembers⟩ := List.forall_mem_singleton.1 hlinks
  exact ⟨⟨hmembers, hnamed, hmacros, hmarkups.1⟩, hmarkups.2⟩

/-- What is left of a renderer that links: its values refer to the same places, and all is filled
that was or is to be. -/
structure Renderer.Links (K : Set Symbol) (is : List Instr) (s t : Renderer) : Prop where
  supplied : t.Supplied K
  grows : s.filled ⊆ t.filled
  fills : hiddenIn is ⊆ t.filled

mutual

lemma execInstr_linked (hscope : scope.Supplied K) : ∀ (i : Instr) {s t : Renderer} {out : String},
    Linked K [i] → s.Supplied K → execInstr invoker scope i s = .ok out t → s.Links K [i] t
  | .define target m, s, t, out, h, hs, hexec => by
    cases hexec
    have hm := h.macros (target, m) List.mem_cons_self
    have hnamed := h.named (target, m) List.mem_cons_self
    have hs' : Renderer.Supplied K { s with fresh := s.fresh + 1 } := hs.of_eq rfl rfl
    refine ⟨hs'.bind hm hnamed hscope _, ?_, ?_⟩
    · rw [Renderer.filled_bind]
      exact Set.subset_union_left
    · rw [Renderer.filled_bind]
      exact fun key hkey => .inr (List.mem_singleton.1 hkey).symm
  | .bindSpace handle members markup, s, t, out, h, hs, hexec => by
    obtain ⟨hmembers, hmarkup⟩ := h.space
    rw [execInstr, Run.modify_bind] at hexec
    obtain ⟨t', ht'⟩ := exec_links hmembers.links scope (s.mapContext (·.openSpace handle))
    rw [Run.bind_of_ok (ht' invoker)] at hexec
    cases hexec
    obtain ⟨hsupplied, hgrows, hfills⟩ :=
      exec_linked hscope members hmembers (hs.openSpace handle) (ht' invoker)
    rw [← hiddenIn_bindSpace handle members markup] at hfills
    exact ⟨hsupplied.closeSpace handle hmarkup hscope, hgrows, hfills⟩
  | .text _, _, _, _, h, _, _ => nomatch h.links _ List.mem_cons_self
  | .output _, _, _, _, h, _, _ => nomatch h.links _ List.mem_cons_self
  | .callBlock _ _ _, _, _, _, h, _, _ => nomatch h.links _ List.mem_cons_self

/-- **Linking** fills all places that the code names. -/
lemma exec_linked (hscope : scope.Supplied K) : ∀ (is : List Instr) {s t : Renderer} {out : String},
    Linked K is → s.Supplied K → exec invoker scope is s = .ok out t → s.Links K is t
  | [], s, t, out, _, hs, hexec => by
    cases hexec
    refine ⟨hs, subset_rfl, ?_⟩
    rw [hiddenIn_nil]
    exact Set.empty_subset _
  | i :: rest, s, t, out, h, hs, hexec => by
    obtain ⟨s₁, hfirst⟩ := execInstr_links (h.links i List.mem_cons_self) scope s
    rw [exec, Run.bind_of_ok (hfirst invoker), Relocation.bind_append_empty] at hexec
    have hi := execInstr_linked hscope i h.uncons.1 hs (hfirst invoker)
    have hrest := exec_linked hscope rest h.uncons.2 hi.supplied hexec
    refine ⟨hrest.supplied, hi.grows.trans hrest.grows, ?_⟩
    rw [← List.singleton_append, hiddenIn_append]
    exact Set.union_subset (hi.fills.trans hrest.grows) hrest.fills

end

end Linking

/-! ### Sound computations -/

namespace Run

variable {α β : Type}

/-- The computation leaves a sound renderer, in which all places that were filled still are, and
what it gives is as required for the places that are filled then. -/
structure Sound (act : Run α) (V : Set Symbol → α → Prop) (s : Renderer) : Prop where
  final : (act.final s).Sound
  grows : s.filled ⊆ (act.final s).filled
  ok : ∀ {a t}, act s = .ok a t → V t.filled a

namespace Sound

variable {act : Run α} {V : Set Symbol → α → Prop} {W : Set Symbol → β → Prop} {s t : Renderer}

lemma pure {a : α} (hs : s.Sound) (ha : V s.filled a) : Sound (Pure.pure a : Run α) V s where
  final := hs
  grows := subset_rfl
  ok h := by
    cases h
    exact ha

lemma throw {e : RenderError} (hs : s.Sound) : Sound (MonadExcept.throw e : Run α) V s where
  final := hs
  grows := subset_rfl
  ok h := nomatch h

/-- A result comes with a sound renderer. -/
lemma of_ok (h : act.Sound V s) {a : α} (ha : act s = .ok a t) :
    t.Sound ∧ s.filled ⊆ t.filled ∧ V t.filled a := by
  obtain ⟨hfinal, hgrows, hok⟩ := h
  rw [final_of_ok ha] at hfinal hgrows
  exact ⟨hfinal, hgrows, hok ha⟩

/-- A sound computation may be gone on with. -/
lemma bind {k : α → Run β} (h : act.Sound V s)
    (hk : ∀ {a t}, t.Sound → s.filled ⊆ t.filled → V t.filled a → (k a).Sound W t) :
    (act >>= k).Sound W s := by
  cases hr : act s with
  | ok a t =>
    obtain ⟨ht, hgrows, ha⟩ := h.of_ok hr
    obtain ⟨hfinal, hmore, hok⟩ := hk ht hgrows ha
    have heq : (act >>= k).final s = (k a).final t := by rw [Run.final, bind_of_ok hr, Run.final]
    refine ⟨heq ▸ hfinal, heq ▸ hgrows.trans hmore, fun hb => ?_⟩
    rw [bind_of_ok hr] at hb
    exact hok hb
  | error e t =>
    have heq : (act >>= k).final s = act.final s := by
      rw [final_of_error hr, final_of_error (bind_of_error hr)]
    refine ⟨heq ▸ h.final, heq ▸ h.grows, fun hb => ?_⟩
    rw [bind_of_error hr] at hb
    cases hb

lemma get_bind {k : Renderer → Run α} (h : (k s).Sound V s) : (get >>= k).Sound V s :=
  ⟨h.final, h.grows, h.ok⟩

/-- What is to be done in any case may be done if it keeps the renderer sound and the private table
as it is. -/
lemma ensuring (h : act.Sound V s) {after : Renderer → Renderer}
    (hsymbols : ∀ t, (after t).symbols = t.symbols)
    (hafter : ∀ t, t.Sound → s.filled ⊆ t.filled → (after t).Supplied t.filled) :
    (act.ensuring after).Sound V s := by
  have hfilled (t : Renderer) : (after t).filled = t.filled := by
    rw [Renderer.filled, hsymbols, Renderer.filled]
  have hfinal := hafter _ h.final h.grows
  refine ⟨?_, ?_, fun {a t} ha => ?_⟩
  · rw [final_ensuring, Renderer.Sound, hfilled]
    exact hfinal
  · rw [final_ensuring, hfilled]
    exact h.grows
  · rw [Run.ensuring] at ha
    cases hr : act s with
    | ok b t' =>
      rw [hr] at ha
      cases ha
      rw [hfilled]
      exact h.ok hr
    | error e t' =>
      rw [hr] at ha
      cases ha

/-- An entry of the context may be replaced for a while. -/
lemma withEntry {name : String} {o : Option Value} (hs : s.Sound)
    (h : act.Sound V (s.mapContext (·.set name o))) : (Run.withEntry name o act).Sound V s := by
  have hensured : (act.ensuring (·.mapContext (·.set name (s.context.get? name)))).Sound V
      (s.mapContext (·.set name o)) :=
    h.ensuring (fun _ => rfl) fun t ht hgrows =>
      Renderer.Supplied.set ht name (Value.optionSupplied_mono (hs.context name) hgrows)
  exact ⟨hensured.final, hensured.grows, hensured.ok⟩

/-- An invocation may be counted. -/
lemma nested {what : String} (hs : s.Sound) (h : act.Sound V s.deeper) :
    (Run.nested what act).Sound V s := by
  by_cases hd : maxCallDepth ≤ s.depth
  · have heq : Run.nested what act s = .error (.callDepth what) s := if_pos hd
    refine ⟨?_, ?_, fun ha => ?_⟩
    · rw [final_nested_of_le hd]
      exact hs
    · rw [final_nested_of_le hd]
    · rw [heq] at ha
      cases ha
  · have hensured : (act.ensuring fun t => { t with depth := t.depth - 1 }).Sound V s.deeper :=
      h.ensuring (fun _ => rfl) fun t ht _ => Renderer.Supplied.of_eq ht rfl rfl
    have heq : Run.nested what act s =
        (act.ensuring fun t => { t with depth := t.depth - 1 }) s.deeper := if_neg hd
    have hfinal : (Run.nested what act).final s =
        (act.ensuring fun t => { t with depth := t.depth - 1 }).final s.deeper := by
      rw [Run.final, heq, Run.final]
    refine ⟨hfinal ▸ hensured.final, hfinal ▸ hensured.grows, fun ha => ?_⟩
    rw [heq] at ha
    exact hensured.ok ha

end Sound

end Run

/-! ### One level of invocations -/

/-- All code and all values in the invocation refer to the given places only. -/
def Invocation.Supplied (K : Set Symbol) : Invocation → Prop
  | .call m scope args =>
    m.Supplied K ∧ scope.Supplied K ∧ List.Forall₂ (Value.Rel (.supplied K)) args args
  | .block body outer scope => Code.Supplied K body ∧
    Option.Rel (Value.Rel (.supplied K)) outer outer ∧ scope.Supplied K
  | .markup body scope => Code.Supplied K body ∧ scope.Supplied K

/-- Invocations are sound. -/
def Invoker.Sound (invoker : Invoker) : Prop :=
  ∀ i s, s.Sound → i.Supplied s.filled → (invoker i).Sound (fun _ _ => True) s

/-- The instruction does not link, and all that it refers to is among the given places. -/
inductive Instr.Supplied (K : Set Symbol) : Instr → Prop
  | text (s : String) : Supplied K (.text s)
  | output {e : Expr} : Supplies K e.references → Supplied K (.output e)
  | callBlock {body : List Instr} {e : Expr} (source : String) : Code.Supplied K body →
      Supplies K e.references → Supplied K (.callBlock body e source)

section Level

variable {K : Set Symbol} {invoker : Invoker} {scope : Scope} {s : Renderer}

/-- A renderer in which a call is carried out is sound. -/
lemma Renderer.Sound.calling (hs : s.Sound) {kwargs : Option (Dict Value)}
    (hkwargs : Option.Rel (Dict.Rel (Value.Rel (.supplied s.filled))) kwargs kwargs) :
    (s.calling kwargs).Sound :=
  (hs.of_eq (t := s.deeper) rfl rfl).set kwargsName (keywordEntry_rel hkwargs)

/-- A call gives a value that is sound. -/
lemma callValue_sound (hI : invoker.Sound) (hs : s.Sound) {target : Value}
    (htarget : target.Supplied s.filled) {args : List Value}
    (hargs : List.Forall₂ (Value.Rel (.supplied s.filled)) args args)
    {kwargs : Option (Dict Value)}
    (hkwargs : Option.Rel (Dict.Rel (Value.Rel (.supplied s.filled))) kwargs kwargs)
    (what : String) : (callValue invoker target args kwargs what).Sound Value.Supplied s := by
  have enter {i : Invocation} (hi : i.Supplied s.filled) :
      (Run.nested what (Run.withEntry kwargsName (kwargs.map .map) (invoker i)) >>= fun out =>
        (pure (.string out) : Run Value)).Sound Value.Supplied s := by
    have hinvoked : (invoker i).Sound (fun _ _ => True) (s.calling kwargs) :=
      hI i _ (hs.calling hkwargs) hi
    have hdeeper : s.deeper.Sound := hs.of_eq rfl rfl
    exact (Run.Sound.nested hs (.withEntry hdeeper hinvoked)).bind fun ht _ _ =>
      .pure ht (.string _)
  cases htarget with
  | closure id _ hm hscope => exact enter ⟨hm.2, hscope, hargs⟩
  | block id _ hb ho hscope => exact enter ⟨hb.2, ho, hscope⟩
  | undefined => exact .pure hs .undefined
  | nothing => exact .pure hs .undefined
  | _ => exact .throw hs

mutual

/-- An expression gives a value that is sound. -/
lemma eval_sound (hI : invoker.Sound) : ∀ (e : Expr) {s : Renderer}, s.Sound →
    scope.Supplied s.filled → Supplies s.filled e.references →
    (eval invoker scope e).Sound Value.Supplied s
  | .literal l, s, hs, _, _ => .pure hs (.literal l)
  | .var name, s, hs, hscope, _ =>
    .get_bind (.pure hs (.getD (Value.Rel.or (hscope.get? name) (hs.context name))))
  | .param name, s, hs, hscope, _ => .pure hs (.getD (hscope.get? name))
  | .context name, s, hs, _, _ => .get_bind (.pure hs (.getD (hs.context name)))
  | .symbol key, s, hs, _, _ => .get_bind (.pure hs (.getD (hs.symbols key)))
  | .member target name, s, hs, hscope, he =>
    (eval_sound hI target hs hscope he).bind fun ht _ hv => .pure ht (hv.member name)
  | .index target place, s, hs, hscope, he =>
    have h := supplies_append.1 he
    (eval_sound hI target hs hscope h.1).bind fun ht hst hv =>
      (eval_sound hI place ht (hscope.mono hst) (h.2.mono hst)).bind fun hu htu hp =>
        .pure hu ((hv.mono htu).index hp)
  | .list items, s, hs, hscope, he =>
    (evalItems_sound hI items hs hscope he).bind fun ht _ hvs => .pure ht (.list hvs)
  | .map entries, s, hs, hscope, he =>
    (evalEntries_sound hI entries hs hscope he).bind fun ht _ hvs =>
      .pure ht (.map (Dict.rel_ofList hvs))
  | .call callee args kwargs, s, hs, hscope, he =>
    have h := supplies_append.1 he
    have hcode := supplies_append.1 h.1
    (eval_sound hI callee hs hscope hcode.1).bind fun ht hst htarget =>
      (evalItems_sound hI args ht (hscope.mono hst) (hcode.2.mono hst)).bind fun hu htu hargs =>
        have hsu := hst.trans htu
        (evalEntries_sound hI kwargs hu (hscope.mono hsu) (h.2.mono hsu)).bind
          fun hw huw hnamed => callValue_sound hI hw (htarget.mono (htu.trans huw))
            (Value.Rel.items_mono (CodeRel.supplied_le huw) hargs) (by
              split
              · exact .none
              · exact .some (Dict.rel_ofList hnamed)) _

lemma evalItems_sound (hI : invoker.Sound) : ∀ (es : List Expr) {s : Renderer}, s.Sound →
    scope.Supplied s.filled → Supplies s.filled (Expr.itemReferences es) →
    (evalItems invoker scope es).Sound (fun K vs => List.Forall₂ (Value.Rel (.supplied K)) vs vs) s
  | [], _, hs, _, _ => .pure hs .nil
  | e :: rest, _, hs, hscope, he =>
    have h := supplies_append.1 he
    (eval_sound hI e hs hscope h.1).bind fun ht hst hv =>
      (evalItems_sound hI rest ht (hscope.mono hst) (h.2.mono hst)).bind fun hu htu hvs =>
        .pure hu (.cons (hv.mono htu) hvs)

lemma evalEntries_sound (hI : invoker.Sound) : ∀ (es : List (String × Expr)) {s : Renderer},
    s.Sound → scope.Supplied s.filled → Supplies s.filled (Expr.entryReferences es) →
    (evalEntries invoker scope es).Sound
      (fun K vs => List.Forall₂ (Dict.EntryRel (Value.Rel (.supplied K))) vs vs) s
  | [], _, hs, _, _ => .pure hs .nil
  | (k, e) :: rest, _, hs, hscope, he =>
    have h := supplies_append.1 he
    (eval_sound hI e hs hscope h.1).bind fun ht hst hv =>
      (evalEntries_sound hI rest ht (hscope.mono hst) (h.2.mono hst)).bind fun hu htu hvs =>
        .pure hu (.cons (.mk k (hv.mono htu)) hvs)

end

/-- What a value shows is sound. -/
lemma display_sound (hI : invoker.Sound) (hs : s.Sound) {v : Value} (hv : v.Supplied s.filled) :
    (display invoker v).Sound (fun _ _ => True) s := by
  have hdeeper : s.deeper.Sound := hs.of_eq rfl rfl
  cases hv with
  | shown _ hb hscope => exact .nested hs (hI _ _ hdeeper ⟨hb.2, hscope⟩)
  | _ => exact .pure hs trivial

/-- A renderer in which the expression of a call block is evaluated is sound. -/
lemma Renderer.Sound.wrapping (hs : s.Sound) (hscope : scope.Supplied s.filled)
    {body : List Instr} (hbody : Code.Supplied s.filled body) : (s.wrapping body scope).Sound := by
  have hfresh : Renderer.Supplied s.filled { s with fresh := s.fresh + 1 } := hs.of_eq rfl rfl
  exact hfresh.set callerName (.some (.block _ _ ⟨rfl, hbody⟩ (hs.context callerName) hscope))

/-- The expression of a call block gives a value that is sound. -/
lemma evalWrapped_sound (hI : invoker.Sound) (hs : s.Sound) (hscope : scope.Supplied s.filled)
    {body : List Instr} (hbody : Code.Supplied s.filled body) {e : Expr}
    (he : Supplies s.filled e.references) :
    (evalWrapped invoker scope body e).Sound Value.Supplied s := by
  let s₁ : Renderer := { s with fresh := s.fresh + 1 }
  let block := Value.block s.fresh body (s.context.get? callerName) scope
  have hs₁ : s₁.Sound := hs.of_eq rfl rfl
  have heval : (eval invoker scope e).Sound Value.Supplied
      (s₁.mapContext (·.set callerName (some block))) :=
    eval_sound hI e (hs.wrapping hscope hbody) hscope he
  have hwrapped := Run.Sound.withEntry hs₁ heval
  exact ⟨hwrapped.final, hwrapped.grows, hwrapped.ok⟩

/-- An instruction that does not link is sound. -/
lemma execInstr_sound (hI : invoker.Sound) {i : Instr} (h : i.Supplied s.filled) (hs : s.Sound)
    (hscope : scope.Supplied s.filled) :
    (execInstr invoker scope i).Sound (fun _ _ => True) s := by
  cases h with
  | text x => exact .pure hs trivial
  | output he =>
    exact (eval_sound hI _ hs hscope he).bind fun ht _ hv => display_sound hI ht hv
  | callBlock source hbody he =>
    exact (evalWrapped_sound hI hs hscope hbody he).bind fun ht _ hv => display_sound hI ht hv

/-- **Running supplied code** is sound. -/
lemma exec_sound (hI : invoker.Sound) {is : List Instr} (h : Code.Supplied K is) {s : Renderer}
    (hs : s.Sound) (hK : K ⊆ s.filled) (hscope : scope.Supplied s.filled) :
    (exec invoker scope is).Sound (fun _ _ => True) s := by
  have hcons {i : Instr} {rest : List Instr} {s : Renderer} (hi : i.Supplied s.filled)
      (hs : s.Sound) (hscope : scope.Supplied s.filled)
      (hrest : ∀ {t : Renderer}, t.Sound → s.filled ⊆ t.filled →
        (exec invoker scope rest).Sound (fun _ _ => True) t) :
      (exec invoker scope (i :: rest)).Sound (fun _ _ => True) s :=
    (execInstr_sound hI hi hs hscope).bind fun ht hst _ =>
      (hrest ht hst).bind fun hu _ _ => .pure hu trivial
  induction h generalizing s with
  | nil => exact .pure hs trivial
  | text x _ ih =>
    exact hcons (.text x) hs hscope fun ht hst => ih ht (hK.trans hst) (hscope.mono hst)
  | output he _ ih =>
    exact hcons (.output (he.mono hK)) hs hscope
      fun ht hst => ih ht (hK.trans hst) (hscope.mono hst)
  | callBlock source hbody he _ _ ih =>
    exact hcons (.callBlock source (hbody.mono hK) (he.mono hK)) hs hscope
      fun ht hst => ih ht (hK.trans hst) (hscope.mono hst)
  | @link K is rest _ hlinks hnamed hparams hbody hmarkup _ _ _ ih =>
    have hrun : Linked (K ∪ hiddenIn is) is :=
      ⟨hlinks, hnamed, fun b hb => ⟨hparams b hb, hbody b hb⟩, hmarkup⟩
    obtain ⟨t, ht⟩ := exec_links hlinks scope s
    -- during the run everything refers to what is filled already or by the run
    have hlinked := exec_linked (hscope.mono Set.subset_union_left) is
      (hrun.mono (Set.union_subset_union_left _ hK)) (hs.mono Set.subset_union_left) (ht invoker)
    have hfilled : s.filled ∪ hiddenIn is ⊆ t.filled := Set.union_subset hlinked.grows hlinked.fills
    have hrest := ih (hlinked.supplied.mono hfilled)
      ((Set.union_subset_union_left _ hK).trans hfilled) (hscope.mono hlinked.grows)
    have hexec : exec invoker scope (is ++ rest) s = exec invoker scope rest t :=
      exec_append_of_silent (ht invoker)
    have hfinal : (exec invoker scope (is ++ rest)).final s =
        (exec invoker scope rest).final t := by
      rw [Run.final, hexec, Run.final]
    exact ⟨hfinal ▸ hrest.final, hfinal ▸ hlinked.grows.trans hrest.grows, fun _ => trivial⟩

/-- What refers to given places in parameters does so in the default of the first. -/
lemma Supplies.default {p : Param} {ps : List Param}
    (h : Supplies K ((p :: ps).flatMap Param.references)) {e : Expr} (he : p.default = some e) :
    Supplies K e.references := by
  have hp := (supplies_append.1 h).1
  rwa [Param.references, he] at hp

/-- Parameters correspond to themselves by their names. -/
lemma Param.rel_itself (ps : List Param) : List.Forall₂ (Param.Rel fun _ _ => True) ps ps := by
  refine List.forall₂_same.2 fun p _ => ⟨rfl, ?_⟩
  cases p.default with
  | none => exact .none
  | some e => exact .some (.reference trivial)

/-- The defaults of a macro give sound values to its parameters. -/
lemma fillDefaults_sound (hI : invoker.Sound) {ps : List Param}
    (hps : Supplies K (ps.flatMap Param.references)) {s : Renderer} (hs : s.Sound)
    (hK : K ⊆ s.filled) (hscope : scope.Supplied s.filled) {vars : Dict Value}
    (hvars : Dict.Rel (Value.Rel (.supplied s.filled)) vars vars) :
    (fillDefaults invoker scope ps vars).Sound
      (fun K vars => Dict.Rel (Value.Rel (.supplied K)) vars vars) s := by
  induction ps generalizing s vars with
  | nil => exact .pure hs hvars
  | cons p ps ih =>
    have hrest := (supplies_append.1 hps).2
    rw [fillDefaults]
    cases hd : p.default with
    | none => exact ih hrest hs hK hscope hvars
    | some e =>
      have he := (Supplies.default hps hd).mono hK
      dsimp only
      split
      · refine (eval_sound hI e hs (.cons hvars hscope) he).bind fun ht hst hv => ?_
        exact ih hrest ht (hK.trans hst) (hscope.mono hst)
          ((hvars.mono fun h => h.mono (CodeRel.supplied_le hst)).insert _ hv)
      · exact ih hrest hs hK hscope hvars

/-- The parameters of a macro get sound values. -/
lemma bindParams_sound (hI : invoker.Sound) (hs : s.Sound) {m : Macro} (hm : m.Supplied s.filled)
    (hscope : scope.Supplied s.filled) {args : List Value}
    (hargs : List.Forall₂ (Value.Rel (.supplied s.filled)) args args) :
    (bindParams invoker m scope args).Sound
      (fun K vars => Dict.Rel (Value.Rel (.supplied K)) vars vars) s := by
  have hparams := Param.rel_itself m.params
  have hpositional := Dict.rel_ofList (positional_rel hparams hargs)
  refine (fillDefaults_sound hI hm.params hs subset_rfl hscope hpositional).bind
    fun ht _ hvars => .get_bind (.pure ht ?_)
  exact applyKeywords_rel (Context.kwargs_rel (ht.context kwargsName)) hparams hvars

/-- Invoking a macro is sound. -/
lemma invokeMacro_sound (hI : invoker.Sound) (hs : s.Sound) {m : Macro}
    (hm : m.Supplied s.filled) (hscope : scope.Supplied s.filled) {args : List Value}
    (hargs : List.Forall₂ (Value.Rel (.supplied s.filled)) args args) :
    (invokeMacro invoker m scope args).Sound (fun _ _ => True) s := by
  refine .get_bind ?_
  refine (bindParams_sound hI hs hm hscope hargs).bind fun {vars t} ht hst hvars => ?_
  have hwithout : (t.without m.params).Sound := Renderer.Supplied.eraseAll ht _
  have hbody : (exec invoker (vars :: scope) m.body).Sound (fun _ _ => True)
      (t.without m.params) :=
    exec_sound hI hm.body hwithout hst (.cons hvars (hscope.mono hst))
  have hensured : (Run.ensuring (exec invoker (vars :: scope) m.body)
      (·.mapContext (·.restore s.context))).Sound (fun _ _ => True) (t.without m.params) :=
    hbody.ensuring (fun _ => rfl) fun _ hu hgrows =>
      Renderer.Supplied.restore hu (hs.mono (hst.trans hgrows))
  exact ⟨hensured.final, hensured.grows, hensured.ok⟩

/-- So is every invocation if those inside it are. -/
lemma carryOut_sound (hI : invoker.Sound) : Invoker.Sound (carryOut invoker) := by
  intro i s hs hi
  cases i with
  | call m scope args => exact invokeMacro_sound hI hs hi.1 hi.2.1 hi.2.2
  | markup body scope => exact exec_sound hI hi.1 hs subset_rfl hi.2
  | block body outer scope =>
    have hset : (s.mapContext (·.set callerName outer)).Sound := hs.set callerName hi.2.1
    exact .withEntry hs (exec_sound hI hi.1 hset subset_rfl hi.2.2)

end Level

/-- **Invocations are sound**, however much room there is for others inside them. -/
lemma invoke_sound (room : Nat) : Invoker.Sound (invoke room) := by
  induction room with
  | zero => exact fun _ _ hs _ => .throw hs
  | succ room ih => exact carryOut_sound ih

end Stencil
