import Stencil.Proofs.Detour.Slot

/-!
What code depends on. Code **uses** a slot if it puts something there, has a parameter of that name
or refers to it (`Code.uses`). After linking code has filled some slots, code **depends** on those
that it uses, on those that the macros in these use, and so on (`Code.Depends`).

Code does the same in two renderers that differ in slots on which it does not depend. For these are
avoided by a detour (`Detour.around`), and what linking code has put into the other slots says the
same on both sides (`Detour.strokes_around`).
-/

namespace Stencil

/-! ### Uses -/

/-- The slot to which an expression refers. -/
def Expr.slot? : Expr → Option Slot
  | .context name => some (.entry name)
  | .symbol key => some (.hidden key)
  | _ => none

/-- The slots into which the code puts something, those that parameters are called like, and those
to which it refers. -/
def Code.uses (is : List Instr) : List Slot :=
  (allWrites is).map Binding.slot ++ (allReferences is ++ allSealed is).filterMap Expr.slot?

/-- The slots that a macro uses when it is called. -/
def Macro.uses (m : Macro) : List Slot :=
  m.writes.map Binding.slot ++ (m.references ++ m.sealed).filterMap Expr.slot?

/-- The slots that what a stroke leaves uses. -/
def Stroke.uses : Stroke → List Slot
  | put m => m.uses
  | openSpace => []
  | add _ m => m.uses
  | closeSpace markup => Code.uses markup

/-- Whether the code uses the slot, or depends on another one that linking code has filled with what
uses it. -/
inductive Code.Depends (linked is : List Instr) : Slot → Prop
  | uses {slot : Slot} : slot ∈ uses is → Depends linked is slot
  | filled {slot slot' : Slot} {k : Stroke} : Depends linked is slot →
      k ∈ allStrokes slot linked → slot' ∈ k.uses → Depends linked is slot'

/-- Code depends only on slots with a property if it uses only such slots, and so does what is in
them. -/
lemma Code.Depends.of_closed {linked is : List Instr} (P : Slot → Prop)
    (huses : ∀ slot ∈ Code.uses is, P slot)
    (hfilled : ∀ slot, P slot → ∀ k ∈ allStrokes slot linked, ∀ slot' ∈ k.uses, P slot')
    {slot : Slot} (h : Depends linked is slot) : P slot := by
  induction h with
  | uses h => exact huses _ h
  | filled _ hk h ih => exact hfilled _ ih _ hk _ h

/-! ### Detours around slots -/

namespace Detour

/-- A detour around slots, to which nothing leads. -/
def around (U : Slot → Prop) : Detour :=
  ⟨fun name => U (.entry name), fun key => U (.hidden key), fun _ _ => False⟩

variable {U U' : Slot → Prop} {slot : Slot} {is : List Instr} {file : String}
  {params : List String}

lemma around_lawful (U : Slot → Prop) : (around U).Lawful :=
  ⟨False.elim, False.elim, False.elim⟩

lemma around_le (h : ∀ slot, U' slot → U slot) : (around U).Le (around U') :=
  ⟨fun {_} hU => h _ hU, fun {_} hU => h _ hU, False.elim⟩

lemma avoidsSlot_around : (around U).AvoidsSlot slot ↔ U slot := by
  cases slot <;> rfl

/-- Renderers agree up to a detour around slots if they do so in every other slot. -/
lemma agree_around_iff {more : Nat} {s s' : Renderer} : (around U).Agree more s s' ↔
    (∀ slot, ¬ U slot → Option.Rel (around U).value (s.slot slot) (s'.slot slot)) ∧
      s'.depth = s.depth + more := by
  constructor
  · refine fun h => ⟨fun slot hslot => ?_, h.depth⟩
    cases slot with
    | entry name => exact h.context name hslot
    | hidden key => exact h.symbols key hslot
  · exact fun h => ⟨fun name => h.1 (.entry name), fun key => h.1 (.hidden key), False.elim, h.2⟩

/-- Compiled code that uses none of the slots says the same on both sides. -/
lemma code_around (hscoped : ∀ i ∈ is, i.Scoped file params) (h : ∀ slot ∈ Code.uses is, ¬ U slot) :
    (around U).Code is is := by
  have hwrites (b : Binding) (hb : b ∈ allWrites is) : ¬ U b.slot :=
    h _ (List.mem_append_left _ (List.mem_map_of_mem hb))
  have hreads {r : Expr} {slot : Slot} (hr : r ∈ allReferences is ++ allSealed is)
      (hslot : r.slot? = some slot) : ¬ U slot :=
    h _ (List.mem_append_right _ (List.mem_filterMap.2 ⟨r, hr, hslot⟩))
  refine code_self hscoped ?_ (fun name hr => .context (hreads hr rfl)) ?_
  · rintro name hname ⟨b, hb, hroot⟩
    cases b <;> cases hroot <;> exact hwrites _ hb hname
  · rintro key hkey (hb | hr)
    · exact hwrites _ hb hkey
    · exact hreads hr rfl hkey

/-- So does a compiled macro. -/
lemma macros_around {target : Binding} {m : Macro}
    (hscoped : (Instr.define target m).Scoped file params) (htarget : ¬ U target.slot)
    (h : ∀ slot ∈ m.uses, ¬ U slot) : (around U).Macros m m := by
  have huses : Code.uses [.define target m] = target.slot :: m.uses := by
    simp only [Code.uses, allWrites, Instr.writes, allReferences, Instr.references, allSealed,
      Instr.sealed, List.append_nil]
    rfl
  have hcode : (around U).Code [.define target m] [.define target m] :=
    code_around (List.forall_mem_singleton.2 hscoped)
      (huses ▸ List.forall_mem_cons.2 ⟨htarget, h⟩)
  cases hcode with
  | define _ hparams hfree hbody _ => exact ⟨hparams, hfree, hbody⟩

mutual

lemma instr_strokes_around (hslot : ¬ U slot) :
    ∀ {file : String} {params : List String} {i : Instr}, i.Scoped file params →
      (∀ k ∈ i.strokes slot, ∀ slot' ∈ k.uses, ¬ U slot') →
      ∀ k ∈ i.strokes slot, (around U).Strokes k k
  | _, _, .text _, _, _ => nofun
  | _, _, .output _, _, _ => nofun
  | _, _, .callBlock .., _, _ => nofun
  | _, _, .define target m, hscoped, h => by
    rw [Instr.strokes] at h ⊢
    split
    next heq =>
      rw [if_pos heq, List.forall_mem_singleton] at h
      have hmacros (huses : ∀ slot' ∈ m.uses, ¬ U slot') : (around U).Macros m m :=
        macros_around hscoped (heq ▸ hslot) huses
      refine List.forall_mem_singleton.2 ?_
      cases target with
      | member handle name => exact .add name (hmacros h)
      | _ => exact .put (hmacros h)
    next => exact nofun
  | _, _, .bindSpace handle members markup, hscoped, h => by
    cases hscoped with
    | bindSpace _ hmembers hmarkup =>
      rw [Instr.strokes] at h ⊢
      split
      next heq =>
        rw [if_pos heq, List.forall_mem_cons, List.forall_mem_append,
          List.forall_mem_singleton] at h
        rw [List.forall_mem_cons, List.forall_mem_append, List.forall_mem_singleton]
        exact ⟨.openSpace, strokes_around hslot hmembers h.2.1,
          .closeSpace (code_around hmarkup h.2.2)⟩
      next heq =>
        rw [if_neg heq] at h
        exact strokes_around hslot hmembers h

/-- What compiled linking code has put into a slot that is not avoided says the same on both sides
if it uses nothing that is avoided. -/
lemma strokes_around (hslot : ¬ U slot) :
    ∀ {file : String} {params : List String} {is : List Instr},
      (∀ i ∈ is, i.Scoped file params) →
      (∀ k ∈ allStrokes slot is, ∀ slot' ∈ k.uses, ¬ U slot') →
      ∀ k ∈ allStrokes slot is, (around U).Strokes k k
  | _, _, [], _, _ => nofun
  | _, _, i :: rest, hscoped, h => by
    rw [List.forall_mem_cons] at hscoped
    rw [allStrokes, List.forall_mem_append] at h ⊢
    exact ⟨instr_strokes_around hslot hscoped.1 h.1, strokes_around hslot hscoped.2 h.2⟩

end

end Detour

end Stencil
