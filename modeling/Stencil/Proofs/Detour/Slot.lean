import Stencil.Proofs.Detour.Usage
import Stencil.Proofs.Importing

/-!
What linking code leaves in one place. A **slot** of a renderer is an entry of its context or a
place of its private table. What linking code does to a slot is a list of **strokes**
(`allStrokes`): putting a macro there, making sure of a namespace, adding a member to it and giving
it its markup. Each stroke determines the slot from what it was before, up to identities, so that a
run of linking code relates the contents of each slot before and after (`Stroke.Leaves`,
`exec_leaves`).

Strokes come to the same if they are made twice (`Stroke.Leaves.absorb`): the second time, every
member and the markup are put where they are already. Corresponding strokes leave corresponding
contents, if the contents have been so before or if a macro is put there
(`Detour.leaves_congr`).
-/

namespace Stencil

/-! ### Slots -/

/-- An entry of the context, or a place of the private table. -/
inductive Slot where
  | entry (name : String)
  | hidden (key : Symbol)
  deriving DecidableEq

/-- What is in a slot. -/
def Renderer.slot (s : Renderer) : Slot → Option Value
  | .entry name => s.context.get? name
  | .hidden key => s.symbols.get? key

/-- The slot in which the binding puts something. -/
def Binding.slot : Binding → Slot
  | .context name => .entry name
  | .member handle _ => .entry handle
  | .hidden key => .hidden key

/-- What linking code does to a slot. -/
inductive Stroke where
  | put (m : Macro)
  | openSpace
  | add (name : String) (m : Macro)
  | closeSpace (markup : List Instr)

namespace Stroke

/-- What is in the slot after the stroke, with the identity for a new macro. -/
def apply (scope : Scope) (id : Nat) : Stroke → Option Value → Value
  | put m, _ => .closure id m scope
  | openSpace, o => .space (Value.asSpace o).1 (Value.asSpace o).2
  | add name m, o =>
    .space ((Value.asSpace o).1.insert name (.closure id m scope)) (Value.asSpace o).2
  | closeSpace markup, o => .space (Value.asSpace o).1 (some (markup, scope))

/-- What strokes make of the contents of a slot, whatever identities they give out. -/
inductive Leaves (scope : Scope) : List Stroke → Option Value → Option Value → Prop
  | nil (o : Option Value) : Leaves scope [] o o
  | cons (id : Nat) {k : Stroke} {ks : List Stroke} {o o' : Option Value} :
      Leaves scope ks (some (k.apply scope id o)) o' → Leaves scope (k :: ks) o o'

variable {scope : Scope} {k : Stroke} {js ks : List Stroke} {o o' p : Option Value}

lemma Leaves.append (h : Leaves scope js o p) (h' : Leaves scope ks p o') :
    Leaves scope (js ++ ks) o o' := by
  induction h with
  | nil => exact h'
  | cons id _ ih => exact .cons id (ih h')

/-- A stroke made twice counts once. -/
lemma apply_self (k : Stroke) (i i' : Nat) (o : Option Value) :
    k.apply scope i' (some (k.apply scope i o)) = k.apply scope i' o := by
  cases k with
  | add name m => exact congrArg (Value.space · _) (Dict.insert_insert ..)
  | _ => rfl

/-- A stroke after another one undoes it, or they can be made in either order. -/
lemma apply_apply (j k : Stroke) (hk : ∀ m, k ≠ put m) (i i' : Nat) (o : Option Value) :
    j.apply scope i' (some (k.apply scope i o)) = j.apply scope i' o ∨
      j.apply scope i' (some (k.apply scope i o)) =
        k.apply scope i (some (j.apply scope i' o)) := by
  cases j with
  | put m => exact .inl rfl
  | openSpace =>
    cases k with
    | put m => exact absurd rfl (hk m)
    | _ => exact .inr rfl
  | closeSpace markup =>
    cases k with
    | put m => exact absurd rfl (hk m)
    | closeSpace _ => exact .inl rfl
    | _ => exact .inr rfl
  | add name m =>
    cases k with
    | put m => exact absurd rfl (hk m)
    | add name' m' =>
      by_cases hname : name = name'
      · subst hname
        exact .inl (congrArg (Value.space · _) (Dict.insert_insert ..))
      · exact .inr (congrArg (Value.space · _) (Dict.insert_comm _ hname ..))
    | _ => exact .inr rfl

/-- If a macro is put into the slot, it does not matter what has been there. -/
lemma Leaves.of_put {m : Macro} (hm : put m ∈ ks) (h : Leaves scope ks o p) (o' : Option Value) :
    Leaves scope ks o' p := by
  induction h generalizing o' with
  | nil => cases hm
  | @cons id k ks o p h ih =>
    cases hm with
    | head => exact .cons id h
    | tail _ hm => exact .cons id (ih hm _)

/-- A stroke that is made later anyway can be left out. -/
lemma Leaves.of_apply {id : Nat} (hk : k ∈ ks) (h : Leaves scope ks (some (k.apply scope id o)) p) :
    Leaves scope ks o p := by
  by_cases hput : ∃ m, k = put m
  · obtain ⟨m, rfl⟩ := hput
    exact h.of_put hk o
  · have hnot (m : Macro) : k ≠ put m := fun heq => hput ⟨m, heq⟩
    generalize hq : some (k.apply scope id o) = q at h
    induction h generalizing o with
    | nil => cases hk
    | @cons id' j ks q p h ih =>
      subst hq
      cases hk with
      | head => exact .cons id' (k.apply_self id id' o ▸ h)
      | tail _ hk =>
        obtain hgone | hlater := apply_apply j k hnot id id' o
        · exact .cons id' (hgone ▸ h)
        · exact .cons id' (ih hk (congrArg some hlater.symm))

/-- **Strokes made twice** leave what they leave when they are made once. -/
lemma Leaves.absorb (h : Leaves scope js o o') (hjs : ∀ k ∈ js, k ∈ ks)
    (h' : Leaves scope ks o' p) : Leaves scope ks o p := by
  induction h with
  | nil => exact h'
  | cons id _ ih =>
    rw [List.forall_mem_cons] at hjs
    exact (ih hjs.2 h').of_apply hjs.1

end Stroke

/-! ### Linking code -/

/-- What putting a macro at the binding does to its slot. -/
def Binding.stroke (m : Macro) : Binding → Stroke
  | .member _ name => .add name m
  | _ => .put m

mutual

/-- What an instruction of linking code does to the slot. -/
def Instr.strokes (slot : Slot) : Instr → List Stroke
  | .define target m => if target.slot = slot then [target.stroke m] else []
  | .bindSpace handle members markup =>
    if Slot.entry handle = slot then
      .openSpace :: (allStrokes slot members ++ [.closeSpace markup])
    else allStrokes slot members
  | _ => []

/-- What linking code does to the slot. -/
def allStrokes (slot : Slot) : List Instr → List Stroke
  | [] => []
  | i :: rest => i.strokes slot ++ allStrokes slot rest

end

section Strokes

variable {slot : Slot} {is js : List Instr} {scope : Scope} {s t : Renderer}

lemma allStrokes_append (slot : Slot) (is js : List Instr) :
    allStrokes slot (is ++ js) = allStrokes slot is ++ allStrokes slot js := by
  induction is with
  | nil => rfl
  | cons i rest ih => rw [List.cons_append, allStrokes, allStrokes, ih, List.append_assoc]

/-- A definition makes no stroke in other slots. -/
lemma allStrokes_define_of_ne (target : Binding) (h : target.slot ≠ slot) (m : Macro) :
    allStrokes slot [.define target m] = [] := by
  rw [allStrokes, Instr.strokes, if_neg h]
  rfl

/-- Setting an entry changes its slot and no other. -/
lemma Renderer.slot_insert (s : Renderer) (name : String) (v : Value) (slot : Slot) :
    (s.mapContext (·.insert name v)).slot slot =
      if Slot.entry name = slot then some v else s.slot slot := by
  cases slot with
  | entry k =>
    show (s.context.insert name v).get? k = _
    rw [Context.get?_insert]
    simp only [Slot.entry.injEq]
    rfl
  | hidden key => rfl

/-- Putting a macro at a binding is a stroke in its slot and changes no other. -/
lemma Renderer.slot_bind (s : Renderer) (b : Binding) (m : Macro) (scope : Scope) (id : Nat)
    (slot : Slot) : (s.bind b (.closure id m scope)).slot slot =
      if b.slot = slot then some ((b.stroke m).apply scope id (s.slot slot)) else s.slot slot := by
  cases b with
  | context name => exact s.slot_insert name _ slot
  | member handle name =>
    show (s.mapContext (·.insert handle (.space ((s.context.space handle).1.insert name _)
      (s.context.space handle).2))).slot slot = if Slot.entry handle = slot then _ else _
    rw [slot_insert, Context.space_eq]
    split
    next h =>
      subst h
      rfl
    next => rfl
  | hidden key =>
    cases slot with
    | entry k => rfl
    | hidden k =>
      show (s.symbols.insert key _).get? k = _
      rw [SymbolTable.get?_insert]
      simp only [Binding.slot, Slot.hidden.injEq]
      rfl

/-- Opening a namespace is a stroke in its slot, and so is giving it its markup. -/
lemma Renderer.slot_openSpace (s : Renderer) (handle : String) (scope : Scope) (slot : Slot) :
    (s.mapContext (·.openSpace handle)).slot slot =
      if Slot.entry handle = slot then some (Stroke.openSpace.apply scope 0 (s.slot slot))
      else s.slot slot := by
  show (s.mapContext (·.insert handle (.space (s.context.space handle).1
    (s.context.space handle).2))).slot slot = _
  rw [slot_insert, Context.space_eq]
  split
  next h =>
    subst h
    rfl
  next => rfl

lemma Renderer.slot_closeSpace (s : Renderer) (handle : String) (markup : List Instr)
    (scope : Scope) (slot : Slot) :
    (s.mapContext (·.closeSpace handle markup scope)).slot slot =
      if Slot.entry handle = slot then some ((Stroke.closeSpace markup).apply scope 0 (s.slot slot))
      else s.slot slot := by
  show (s.mapContext (·.insert handle (.space (s.context.space handle).1
    (some (markup, scope))))).slot slot = _
  rw [slot_insert, Context.space_eq]
  split
  next h =>
    subst h
    rfl
  next => rfl

/-- What linking code does: it makes its strokes in every slot, and no other invocations are under
way afterwards. -/
structure Code.Leaves (scope : Scope) (is : List Instr) (s t : Renderer) : Prop where
  depth : t.depth = s.depth
  slots : ∀ slot, Stroke.Leaves scope (allStrokes slot is) (s.slot slot) (t.slot slot)

lemma Code.Leaves.append {u : Renderer} (h : Leaves scope is s t) (h' : Leaves scope js t u) :
    Leaves scope (is ++ js) s u :=
  ⟨h'.depth.trans h.depth, fun slot => allStrokes_append slot is js ▸
    (h.slots slot).append (h'.slots slot)⟩

/-- A definition makes one stroke. -/
lemma Code.leaves_define (target : Binding) (m : Macro) (scope : Scope) (s : Renderer) :
    Leaves scope [.define target m] s
      ({ s with fresh := s.fresh + 1 }.bind target (.closure s.fresh m scope)) := by
  refine ⟨by cases target <;> rfl, fun slot => ?_⟩
  have hbind := Renderer.slot_bind { s with fresh := s.fresh + 1 } target m scope s.fresh slot
  rw [hbind, allStrokes, Instr.strokes, allStrokes, List.append_nil]
  split
  · exact .cons s.fresh (.nil _)
  · exact .nil _

/-- A namespace is opened, filled and closed. -/
lemma Code.leaves_bindSpace {handle : String} {members : List Instr} (markup : List Instr)
    (h : Leaves scope members (s.mapContext (·.openSpace handle)) t) :
    Leaves scope [.bindSpace handle members markup] s
      (t.mapContext (·.closeSpace handle markup scope)) := by
  refine ⟨h.depth, fun slot => ?_⟩
  have hmembers := h.slots slot
  rw [s.slot_openSpace handle scope] at hmembers
  rw [Renderer.slot_closeSpace, allStrokes, Instr.strokes, allStrokes, List.append_nil]
  split
  next heq =>
    rw [if_pos heq] at hmembers
    exact .cons 0 (hmembers.append (.cons 0 (.nil _)))
  next heq =>
    rw [if_neg heq] at hmembers
    exact hmembers

/-- What holds of each instruction holds of the list. -/
lemma exec_leaves_of_each (h : ∀ i ∈ is, ∀ s, ∃ t,
      (∀ invoker, execInstr invoker scope i s = .ok "" t) ∧ Code.Leaves scope [i] s t)
    (s : Renderer) :
    ∃ t, (∀ invoker, exec invoker scope is s = .ok "" t) ∧ Code.Leaves scope is s t := by
  induction is generalizing s with
  | nil => exact ⟨s, fun _ => rfl, rfl, fun _ => .nil _⟩
  | cons i rest ih =>
    rw [List.forall_mem_cons] at h
    obtain ⟨s₁, hfirst, hleaves⟩ := h.1 s
    obtain ⟨t, hrest, hleaves'⟩ := ih h.2 s₁
    refine ⟨t, fun invoker => ?_, hleaves.append hleaves'⟩
    rw [exec, Run.bind_of_ok (hfirst invoker), Relocation.bind_append_empty, hrest]

lemma execInstr_leaves {i : Instr} (h : i.Links) (scope : Scope) (s : Renderer) :
    ∃ t, (∀ invoker, execInstr invoker scope i s = .ok "" t) ∧ Code.Leaves scope [i] s t := by
  induction h generalizing s with
  | define target m => exact ⟨_, fun _ => rfl, Code.leaves_define target m scope s⟩
  | bindSpace handle markup _ ih =>
    obtain ⟨t, hexec, ht⟩ := exec_leaves_of_each ih (s.mapContext (·.openSpace handle))
    refine ⟨_, fun invoker => ?_, Code.leaves_bindSpace markup ht⟩
    rw [execInstr, Run.modify_bind, Run.bind_of_ok (hexec invoker)]
    rfl

/-- **Linking code** succeeds, puts out nothing and makes its strokes. -/
lemma exec_leaves (h : ∀ i ∈ is, i.Links) (scope : Scope) (s : Renderer) :
    ∃ t, (∀ invoker, exec invoker scope is s = .ok "" t) ∧ Code.Leaves scope is s t :=
  exec_leaves_of_each (fun i hi => execInstr_leaves (h i hi) scope) s

end Strokes

/-! ### Corresponding strokes -/

namespace Detour

variable {D : Detour} {scope scope' : Scope} {slot : Slot}

/-- Strokes that put corresponding code into a slot. -/
inductive Strokes (D : Detour) : Stroke → Stroke → Prop
  | put {m m' : Macro} : D.Macros m m' → Strokes D (.put m) (.put m')
  | openSpace : Strokes D .openSpace .openSpace
  | add (name : String) {m m' : Macro} : D.Macros m m' → Strokes D (.add name m) (.add name m')
  | closeSpace {markup markup' : List Instr} : D.Code markup markup' →
      Strokes D (.closeSpace markup) (.closeSpace markup')

/-- Corresponding code makes corresponding strokes. -/
lemma Code.strokes {is is' : List Instr} (h : D.Code is is') (slot : Slot) :
    List.Forall₂ D.Strokes (allStrokes slot is) (allStrokes slot is') := by
  induction h with
  | nil => exact .nil
  | text s _ ih => exact ih
  | output _ _ ih => exact ih
  | callBlock _ _ _ _ _ _ ih => exact ih
  | @define target m m' _ _ _ hparams hfree hbody _ _ ih =>
    rw [allStrokes, allStrokes, Instr.strokes, Instr.strokes]
    split
    · refine .cons ?_ ih
      cases target with
      | member handle name => exact .add name ⟨hparams, hfree, hbody⟩
      | _ => exact .put ⟨hparams, hfree, hbody⟩
    · exact ih
  | bindSpace _ _ hmarkup _ ihmembers _ ih =>
    rw [allStrokes, allStrokes, Instr.strokes, Instr.strokes]
    split
    · exact .cons .openSpace
        (List.rel_append (List.rel_append ihmembers (.cons (.closeSpace hmarkup) .nil)) ih)
    · exact List.rel_append ihmembers ih

/-- The slot is avoided. -/
def AvoidsSlot (D : Detour) : Slot → Prop
  | .entry name => D.avoids name
  | .hidden key => D.avoidsKey key

lemma allows_iff (b : Binding) : D.Allows b ↔ ¬ D.AvoidsSlot b.slot := by
  cases b <;> exact Iff.rfl

/-- What is in an avoided slot is kept. -/
lemma Kept.slot_eq {s t : Renderer} (h : D.Kept s t) (hslot : D.AvoidsSlot slot) :
    t.slot slot = s.slot slot := by
  cases slot with
  | entry name => exact h.context name hslot
  | hidden key => exact h.symbols key hslot

/-- Code that corresponds makes no strokes in what is avoided. -/
lemma Code.strokes_avoided {is is' : List Instr} (h : D.Code is is') (hslot : D.AvoidsSlot slot) :
    allStrokes slot is = [] := by
  induction h with
  | nil => rfl
  | text s _ ih => exact ih
  | output _ _ ih => exact ih
  | callBlock _ _ _ _ _ _ ih => exact ih
  | @define target _ _ _ _ htarget _ _ _ _ _ ih =>
    have hne : target.slot ≠ slot := by
      rintro rfl
      exact (allows_iff target).1 htarget hslot
    rw [allStrokes, Instr.strokes, if_neg hne, ih]
    rfl
  | @bindSpace handle _ _ _ _ _ _ hhandle _ _ _ ihmembers _ ih =>
    have hne : Slot.entry handle ≠ slot := by
      rintro rfl
      exact hhandle hslot
    rw [allStrokes, Instr.strokes, if_neg hne, ihmembers, ih]
    rfl

/-- A stroke keeps contents related. -/
lemma Strokes.apply {k k' : Stroke} (h : D.Strokes k k') (hscope : Scope.Rel D.code scope scope')
    (id id' : Nat) {o o' : Option Value} (ho : Option.Rel D.value o o' ∨ ∃ m, k = .put m) :
    D.value (k.apply scope id o) (k'.apply scope' id' o') := by
  cases h with
  | put hm => exact .closure id id' hm hscope
  | openSpace =>
    obtain ho | ⟨m, hm⟩ := ho
    · exact (Value.asSpace_rel ho).2 (Value.asSpace_rel ho).1
    · cases hm
  | add name hm =>
    obtain ho | ⟨m, hm⟩ := ho
    · exact (Value.asSpace_rel ho).2
        ((Value.asSpace_rel ho).1.insert name (.closure id id' hm hscope))
    · cases hm
  | closeSpace hmarkup =>
    obtain ho | ⟨m, hm⟩ := ho
    · exact .shown (Value.asSpace_rel ho).1 hmarkup hscope
    · cases hm

/-- **Corresponding strokes** leave related contents, if the contents have been related before or if
a macro is put into the slot. -/
lemma leaves_congr {ks ks' : List Stroke} {o p o' p' : Option Value}
    (h : Stroke.Leaves scope ks o p) (h' : Stroke.Leaves scope' ks' o' p')
    (hks : List.Forall₂ D.Strokes ks ks') (hscope : Scope.Rel D.code scope scope')
    (ho : Option.Rel D.value o o' ∨ ∃ m, .put m ∈ ks) : Option.Rel D.value p p' := by
  induction hks generalizing o o' with
  | nil =>
    cases h
    cases h'
    exact ho.resolve_right fun ⟨_, hm⟩ => nomatch hm
  | @cons k k' ks ks' hk _ ih =>
    cases h with
    | cons id h =>
      cases h' with
      | cons id' h' =>
        refine ih h h' ?_
        obtain ho | ⟨m, hm⟩ := ho
        · exact .inl (.some (hk.apply hscope id id' (.inl ho)))
        · cases hm with
          | head => exact .inl (.some (hk.apply hscope id id' (.inr ⟨m, rfl⟩)))
          | tail _ hm => exact .inr ⟨m, hm⟩

end Detour

end Stencil
