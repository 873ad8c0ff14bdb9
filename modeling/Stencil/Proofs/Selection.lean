import Stencil.Proofs.Detour.Simulation
import Stencil.Proofs.Detour.Slot
import Stencil.Proofs.Effect
import Stencil.Proofs.Linking
import Stencil.Proofs.Relinking

/-!
Macros of one file, imported by several tags. Each tag **selects** some macros of the file and puts
them into the context, and the other ones into the private table; either way, references from one
macro to another follow it there. So after several tags a macro of the file may be in both places,
and it is linked in one way or another. Yet wherever a tag has put a macro of a name, there is the
last macro of that name in the file, linked by one of the tags (`Exports.Linked`).

Two pages whose tags have made different selections therefore agree up to a detour between the
places of each macro (`Exports.reselecting`). This needs code that leaves these places to the tags
(`Exports.Spares`), and macros of the file that do so (`Exports.SparedBy`). A tag on both pages
keeps the agreement, and a second tag on one of them does so too if it comes directly after another
one: what the file imports is then the same as if it had been imported once
(`Exports.Matched.relink`, `Exports.Relinks.again`).
-/

namespace Stencil

/-! ### The fragments of a file -/

namespace Fragment

/-- The macros of the name that the fragments define. -/
def named (n : String) : List Fragment → List Macro
  | [] => []
  | .imported _ :: rest => named n rest
  | .definition k is :: rest =>
    if k = n then is.filterMap Instr.macro? ++ named n rest else named n rest
  | .markup _ :: rest => named n rest

end Fragment

/-- The name in a slot. -/
def Slot.name : Slot → String
  | .entry name => name
  | .hidden key => key.name

namespace Exports

variable {x : Exports} {fs : List Fragment}

/-- The macros of a name are defined by fragments of that name. -/
lemma Defines.mem_named (h : x.Defines fs) {n : String} {m : Macro}
    (hm : m ∈ Fragment.named n fs) : .definition n [.define (.context n) m] ∈ fs := by
  induction fs with
  | nil => cases hm
  | cons f rest ih =>
    cases f with
    | imported is => exact List.mem_cons_of_mem _ (ih h.tail hm)
    | markup is => exact List.mem_cons_of_mem _ (ih h.tail hm)
    | definition k is =>
      obtain ⟨_, m₀, _, rfl⟩ := h k is List.mem_cons_self
      rw [Fragment.named] at hm
      split at hm
      next heq =>
        subst heq
        obtain rfl | hm := List.mem_cons.1 hm
        · exact List.mem_cons_self
        · exact List.mem_cons_of_mem _ (ih h.tail hm)
      next => exact List.mem_cons_of_mem _ (ih h.tail hm)

/-- A name with a fragment has a last macro. -/
lemma Defines.exists_last (h : x.Defines fs) {n : String} (hn : ∃ is, .definition n is ∈ fs) :
    ∃ m, (Fragment.named n fs).getLast? = some m := by
  suffices hne : Fragment.named n fs ≠ [] from ⟨_, List.getLast?_eq_some_getLast hne⟩
  obtain ⟨is, his⟩ := hn
  induction fs with
  | nil => cases his
  | cons f rest ih =>
    cases his with
    | head =>
      obtain ⟨_, m, _, rfl⟩ := h n is List.mem_cons_self
      rw [Fragment.named, if_pos rfl]
      exact List.cons_ne_nil m _
    | tail _ his =>
      have hrest := ih h.tail his
      cases f with
      | definition k js =>
        rw [Fragment.named]
        split
        · exact List.append_ne_nil_of_right_ne_nil _ hrest
        · exact hrest
      | _ => exact hrest

/-! ### The detour -/

/-- The detour between two pages that import macros of the file. Each macro of the file is where one
of the selections puts it that have been made on the one page, and where one of those puts it that
have been made on the other. The names in `rs` may be read all the time, those in `zs` may not. -/
def reselecting (x : Exports) (rs zs : List String) (ss ss' : List (List String)) : Detour where
  avoids n := n ∈ rs ++ zs
  avoidsKey key := key.file = x.file
  route b b' := (∃ n ∈ rs, b = .context n ∧ b' = .context n) ∨
    ∃ n, x.has n = true ∧ (∃ s ∈ ss, b = x.selectedBinding s n) ∧
      ∃ s ∈ ss', b' = x.selectedBinding s n

/-- The code leaves the macros of the file to the tags: it binds none of the names, reads only those
that may be read, and does not touch the private places of the file. -/
structure Spares (x : Exports) (rs zs : List String) (is : List Instr) : Prop where
  binds : ∀ n ∈ rs ++ zs, ¬ Code.Binds is n
  reads : ∀ n ∈ zs, ¬ Code.Reads is n
  touches : ∀ key : Symbol, key.file = x.file → ¬ Code.Touches is key

/-- So does a macro of the file itself, which may refer to the other ones. -/
structure SparedBy (x : Exports) (rs zs : List String) (m : Macro) : Prop where
  binds : ∀ n ∈ rs ++ zs, ∀ b ∈ m.writes, b.root? ≠ some n
  sealed : ∀ n ∈ zs, .context n ∉ m.sealed
  reads : ∀ n ∈ zs, .context n ∈ m.references → x.has n = true
  touches : ∀ key : Symbol, key.file = x.file →
    .hidden key ∉ m.writes ∧ .symbol key ∉ m.references ++ m.sealed

variable {rs zs s : List String} {ss ss' : List (List String)}

section Detour

/-- A tag puts the macros of the file in avoided places. -/
lemma avoids_selectedBinding (hs : ∀ n ∈ s, n ∈ rs ++ zs) (n : String) :
    (x.reselecting rs zs ss ss').AvoidsSlot (x.selectedBinding s n).slot := by
  obtain ⟨hn, h⟩ | ⟨_, h⟩ := x.selectedBinding_cases s n
  · rw [h]
    exact hs n (List.contains_iff_mem.1 hn)
  · rw [h]
    rfl

/-- These are none of the entries that calls set. -/
lemma reached_selectedBinding (hs : ∀ n ∈ s, n ∈ rs ++ zs) (hcaller : callerName ∉ rs ++ zs)
    (hkwargs : kwargsName ∉ rs ++ zs) (n : String) :
    (x.reselecting rs zs ss ss').Reached (x.selectedBinding s n) := by
  obtain ⟨hn, h⟩ | ⟨_, h⟩ := x.selectedBinding_cases s n
  · rw [h]
    have hmem : n ∈ rs ++ zs := hs n (List.contains_iff_mem.1 hn)
    exact .context hmem (fun heq => hcaller (heq ▸ hmem)) fun heq => hkwargs (heq ▸ hmem)
  · rw [h]
    exact .hidden rfl

lemma describe_selectedBinding (s : List String) (n : String) :
    (x.selectedBinding s n).ref.describe = n := by
  obtain ⟨_, h⟩ | ⟨_, h⟩ := x.selectedBinding_cases s n <;> rw [h] <;> rfl

lemma selectedBinding_of_mem {n : String} (h : n ∈ s) : x.selectedBinding s n = .context n :=
  if_pos (List.contains_iff_mem.2 h)

lemma reselecting_lawful (hss : ∀ s ∈ ss, ∀ n ∈ s, n ∈ rs ++ zs)
    (hss' : ∀ s ∈ ss', ∀ n ∈ s, n ∈ rs ++ zs) (hcaller : callerName ∉ rs ++ zs)
    (hkwargs : kwargsName ∉ rs ++ zs) : (x.reselecting rs zs ss ss').Lawful := by
  have hreached {n : String} (hn : n ∈ rs) : (x.reselecting rs zs ss ss').Reached (.context n) :=
    .context (List.mem_append_left zs hn)
      (fun heq => hcaller (heq ▸ List.mem_append_left zs hn))
      fun heq => hkwargs (heq ▸ List.mem_append_left zs hn)
  refine ⟨?_, ?_, ?_⟩
  · rintro _ _ (⟨n, hn, rfl, _⟩ | ⟨n, _, ⟨s, hs, rfl⟩, _⟩)
    · exact hreached hn
    · exact reached_selectedBinding (hss s hs) hcaller hkwargs n
  · rintro _ _ (⟨n, hn, _, rfl⟩ | ⟨n, _, _, s, hs, rfl⟩)
    · exact hreached hn
    · exact reached_selectedBinding (hss' s hs) hcaller hkwargs n
  · rintro _ _ (⟨n, _, rfl, rfl⟩ | ⟨n, _, ⟨s, _, rfl⟩, s', _, rfl⟩)
    · rfl
    · rw [describe_selectedBinding, describe_selectedBinding]

/-- A name that may be read leads to itself. -/
lemma ref_readable {n : String} (hn : n ∈ rs) :
    (x.reselecting rs zs ss ss').Ref (.context n) (.context n) :=
  .route (show (x.reselecting rs zs ss ss').route (.context n) (.context n) from
    .inl ⟨n, hn, rfl, rfl⟩)

/-- So does every other name that is not forbidden. -/
lemma ref_context {n : String} (hn : n ∉ zs) :
    (x.reselecting rs zs ss ss').Ref (.context n) (.context n) := by
  by_cases hrs : n ∈ rs
  · exact ref_readable hrs
  · exact .context fun havoids => (List.mem_append.1 havoids).elim hrs hn

/-- Code that leaves the macros to the tags says the same on both pages. -/
lemma Spares.code {is : List Instr} (h : x.Spares rs zs is) {file : String}
    (hscoped : ∀ i ∈ is, i.Scoped file []) : (x.reselecting rs zs ss ss').Code is is :=
  Detour.code_self hscoped h.binds (fun n hreads => ref_context fun hn => h.reads n hn hreads)
    h.touches

/-- A reference to a macro of the file follows it to where a tag puts it. -/
lemma replace_symbolOf {n : String} (hn : x.has n = true) (s : List String) :
    (Expr.context n).replace (x.symbolOf s) = (x.selectedBinding s n).ref := by
  obtain ⟨hs, h⟩ | ⟨hs, h⟩ := x.selectedBinding_cases s n
  · have hnone : x.symbolOf s (.context n) = none := by
      rw [symbolOf, hs, Bool.not_true, Bool.and_false]
      rfl
    rw [h, (Expr.IsReference.context n).replace_eq hnone]
    rfl
  · have hsome : x.symbolOf s (.context n) = some (.symbol (x.key n)) := by
      rw [symbolOf, hs, hn]
      rfl
    rw [h, Expr.replace_of_some hsome]
    rfl

/-- A macro of the file says the same, however it has been linked on either page. -/
lemma SparedBy.macros {m : Macro} (h : x.SparedBy rs zs m) {file : String} {target : Binding}
    (hscoped : (Instr.define target m).Scoped file []) {s' : List String} (hs : s ∈ ss)
    (hs' : s' ∈ ss') : (x.reselecting rs zs ss ss').Macros (m.replace (x.symbolOf s))
      (m.replace (x.symbolOf s')) := by
  refine Detour.macros_replace (x.changes_symbolOf s).relinked (x.changes_symbolOf s').relinked
    (fun b hb => ?_) (fun r hr => ?_) fun r hr => ?_
  · cases b with
    | context n => exact fun hn => h.binds n hn _ hb rfl
    | member handle n => exact fun hn => h.binds handle hn _ hb rfl
    | hidden key => exact fun hkey => (h.touches key hkey).1 hb
  · obtain ⟨_, hknown⟩ := hscoped.sealed_known r hr
    cases hknown with
    | param _ => exact .param _
    | context n => exact ref_context fun hn => h.sealed n hn hr
    | symbol key => exact .symbol fun hkey => (h.touches key hkey).2 (List.mem_append_right _ hr)
  · obtain ⟨_, hknown⟩ := hscoped.known r hr
    cases hknown with
    | param _ => exact .reference (.param _)
    | context n =>
      by_cases hn : x.has n = true
      · rw [replace_symbolOf hn, replace_symbolOf hn]
        exact .reference (.route (.inr ⟨n, hn, ⟨s, hs, rfl⟩, s', hs', rfl⟩))
      · have hnone (s : List String) : x.symbolOf s (.context n) = none := by
          simp [symbolOf, hn]
        rw [(Expr.IsReference.context n).replace_eq (hnone s),
          (Expr.IsReference.context n).replace_eq (hnone s')]
        exact .reference (ref_context fun hzs => hn (h.reads n hzs hr))
    | symbol key =>
      exact .reference (.symbol fun hkey => (h.touches key hkey).2 (List.mem_append_left _ hr))

end Detour

/-! ### What a tag leaves -/

section Slots

variable {t u v : Renderer}

/-- A tag puts a selected macro into the context and another one into the private table. -/
lemma selecting_define_eq {k : String} {m : Macro} (hk : x.has k = true) (hm : m.name = k)
    (s : List String) : x.selecting s [.define (.context k) m] =
      [.define (x.selectedBinding s k) (m.replace (x.symbolOf s))] := by
  rw [selecting_define hk hm, selectedBinding]
  simp only [List.contains_iff_mem]

/-- What is at the place of a macro is what is in its slot. -/
lemma read_selectedBinding (t : Renderer) (s : List String) (n : String) :
    t.read (x.selectedBinding s n) = (t.slot (x.selectedBinding s n).slot).getD .undefined := by
  obtain ⟨_, h⟩ | ⟨_, h⟩ := x.selectedBinding_cases s n <;> rw [h] <;> rfl

/-- A tag does not change the name of a macro. -/
lemma name_slot_selectedBinding (s : List String) (k : String) :
    (x.selectedBinding s k).slot.name = k := by
  obtain ⟨_, h⟩ | ⟨_, h⟩ := x.selectedBinding_cases s k <;> rw [h] <;> rfl

/-- The definition of a selected macro or of another one is a stroke in its slot. -/
lemma strokes_selecting (s : List String) (k : String) (m : Macro) (slot : Slot) :
    Instr.strokes slot (.define (x.selectedBinding s k) m) =
      if (x.selectedBinding s k).slot = slot then [.put m] else [] := by
  rw [Instr.strokes]
  obtain ⟨_, h⟩ | ⟨_, h⟩ := x.selectedBinding_cases s k <;> rw [h] <;> rfl

/-- In a slot that is not one of the macros of the file, a tag leaves what the file imports. -/
lemma allStrokes_pick_other (hdefines : x.Defines fs) {slot : Slot}
    (hslot : ∀ k, (x.selectedBinding s k).slot ≠ slot) :
    allStrokes slot (x.pick s fs) = allStrokes slot (Fragment.imports fs) := by
  induction fs with
  | nil => rfl
  | cons f rest ih =>
    cases f with
    | markup is => exact ih hdefines.tail
    | imported is =>
      rw [pick, Fragment.imports, allStrokes_append, allStrokes_append, ih hdefines.tail]
    | definition k is =>
      obtain ⟨hk, m, hm, rfl⟩ := hdefines k is List.mem_cons_self
      rw [pick, selecting_define_eq hk hm, Fragment.imports, allStrokes_append,
        allStrokes_define_of_ne _ (hslot k), ih hdefines.tail]
      rfl

/-- In a slot that the imports of the file leave alone, a tag leaves the macros of its name if this
is where it puts them. -/
lemma allStrokes_pick (hdefines : x.Defines fs) {slot : Slot}
    (himported : ∀ is, .imported is ∈ fs → allStrokes slot is = []) (s : List String) :
    allStrokes slot (x.pick s fs) = if (x.selectedBinding s slot.name).slot = slot then
      (Fragment.named slot.name fs).map (fun m => .put (m.replace (x.symbolOf s))) else [] := by
  induction fs with
  | nil => exact (ite_self _).symm
  | cons f rest ih =>
    have hrest := ih hdefines.tail fun is his => himported is (List.mem_cons_of_mem f his)
    cases f with
    | markup is => exact hrest
    | imported is =>
      rw [pick, allStrokes_append, himported is List.mem_cons_self, hrest]
      rfl
    | definition k is =>
      obtain ⟨hk, m, hm, rfl⟩ := hdefines k is List.mem_cons_self
      rw [pick, selecting_define_eq hk hm, allStrokes_append, allStrokes, strokes_selecting,
        allStrokes, List.append_nil, hrest, Fragment.named]
      by_cases hkn : k = slot.name
      · subst hkn
        rw [if_pos rfl]
        split <;> rfl
      · have hother : (x.selectedBinding s k).slot ≠ slot := by
          rintro rfl
          exact hkn (name_slot_selectedBinding s k).symm
        rw [if_neg hother, if_neg hkn]
        rfl

/-- Putting macros one after the other leaves the last one. -/
lemma leaves_puts {scope : Scope} {f : Macro → Macro} {ms : List Macro} {m : Macro}
    (hm : ms.getLast? = some m) {o p : Option Value}
    (h : Stroke.Leaves scope (ms.map fun m => .put (f m)) o p) :
    ∃ id, p = some (.closure id (f m) scope) := by
  induction ms generalizing o with
  | nil => cases hm
  | cons m₀ rest ih =>
    cases h with
    | cons id h =>
      cases hrest : rest.getLast? with
      | some m' =>
        rw [List.getLast?_cons, hrest] at hm
        cases hm
        exact ih hrest h
      | none =>
        rw [List.getLast?_cons, hrest] at hm
        cases hm
        rw [List.getLast?_eq_none_iff.1 hrest] at h
        cases h
        exact ⟨id, rfl⟩

variable (hdefines : x.Defines fs) (h : Code.Leaves [] (x.pick s fs) t u)

include hdefines h

/-- **Where a tag puts the macros of a name**, it leaves the last one. -/
lemma slot_pick_self {n : String} {m : Macro} (hm : (Fragment.named n fs).getLast? = some m)
    (himported : ∀ is, .imported is ∈ fs → allStrokes (x.selectedBinding s n).slot is = []) :
    ∃ id, u.slot (x.selectedBinding s n).slot =
      some (.closure id (m.replace (x.symbolOf s)) []) := by
  have hslot := h.slots (x.selectedBinding s n).slot
  rw [allStrokes_pick hdefines himported, name_slot_selectedBinding, if_pos rfl] at hslot
  exact leaves_puts hm hslot

/-- Where it does not put those of the name, it leaves what has been there. -/
lemma slot_pick_of_ne {slot : Slot} (hne : (x.selectedBinding s slot.name).slot ≠ slot)
    (himported : ∀ is, .imported is ∈ fs → allStrokes slot is = []) :
    u.slot slot = t.slot slot := by
  have hslot := h.slots slot
  rw [allStrokes_pick hdefines himported, if_neg hne] at hslot
  generalize u.slot slot = p at hslot ⊢
  cases hslot
  rfl

end Slots

/-! ### Agreement after the tags -/

/-- Where one of the tags has put the macros of a name, there is the last one, as it has been linked
by one of them. -/
def Linked (x : Exports) (fs : List Fragment) (ss : List (List String)) (t : Renderer) : Prop :=
  ∀ n, x.has n = true → ∀ s ∈ ss, ∃ m id, ∃ s' ∈ ss, (Fragment.named n fs).getLast? = some m ∧
    t.slot (x.selectedBinding s n).slot = some (.closure id (m.replace (x.symbolOf s')) [])

/-- The fragments are those of the file, and what they import and define leaves the macros of the
file to the tags. -/
structure Tame (x : Exports) (rs zs : List String) (fs : List Fragment) : Prop where
  defines : x.Defines fs
  last : ∀ n, x.has n = true → ∃ m, (Fragment.named n fs).getLast? = some m
  imported : ∀ is, .imported is ∈ fs → x.Spares rs zs is ∧ ∀ i ∈ is, i.Scoped x.file []
  own : ∀ n m, .definition n [.define (.context n) m] ∈ fs →
    x.SparedBy rs zs m ∧ (Instr.define (.context n) m).Scoped x.file []

/-- How a renderer has changed if the macros `s` have been imported by one tag, and then more macros
by tags that come directly after it, so that the selections `ss` have been made altogether. -/
structure Relinks (x : Exports) (rs zs : List String) (fs : List Fragment) (s : List String)
    (ss : List (List String)) (t u : Renderer) : Prop where
  depth : u.depth = t.depth
  others : ∀ slot, ¬ (x.reselecting rs zs [] []).AvoidsSlot slot →
    Stroke.Leaves [] (allStrokes slot (Fragment.imports fs)) (t.slot slot) (u.slot slot)
  kept : ∀ n ∈ rs, n ∉ s → u.slot (.entry n) = t.slot (.entry n)
  linked : x.Linked fs ss u

/-- Two pages agree on which the selections have been made. -/
structure Matched (x : Exports) (rs zs : List String) (fs : List Fragment)
    (ss ss' : List (List String)) (t t' : Renderer) : Prop where
  within : ∀ s ∈ ss ++ ss', ∀ n ∈ s, n ∈ rs ++ zs
  agree : (x.reselecting rs zs ss ss').Agree 0 t t'
  left : x.Linked fs ss t
  right : x.Linked fs ss' t'

section Agree

variable {s' : List String} {t u v t' u' : Renderer}

/-- Slots that are avoided are left alone by what the file imports. -/
lemma Tame.strokes_imported (h : x.Tame rs zs fs) {slot : Slot}
    (hslot : (x.reselecting rs zs [] []).AvoidsSlot slot) :
    ∀ is, .imported is ∈ fs → allStrokes slot is = [] := fun is his =>
  ((h.imported is his).1.code (h.imported is his).2).strokes_avoided hslot

/-- What the file imports says the same on both pages. -/
lemma Tame.code_imports (h : x.Tame rs zs fs) : (x.reselecting rs zs ss ss').Code
    (Fragment.imports fs) (Fragment.imports fs) := by
  have himported := h.imported
  clear h
  induction fs with
  | nil => exact .nil
  | cons f rest ih =>
    have hrest := ih fun is his => himported is (List.mem_cons_of_mem f his)
    cases f with
    | imported is =>
      obtain ⟨hspares, hscoped⟩ := himported is List.mem_cons_self
      exact (hspares.code hscoped).append hrest
    | _ => exact hrest

variable (hfile : x.Tame rs zs fs)

include hfile

/-- A tag links the macros of the file in its own way. -/
lemma Linked.pick (hss : ∀ s' ∈ s :: ss, ∀ n ∈ s', n ∈ rs ++ zs) (h : x.Linked fs ss t)
    (hu : Code.Leaves [] (x.pick s fs) t u) : x.Linked fs (s :: ss) u := by
  intro n hn s₁ hs₁
  have hown (s' : List String) (hs' : s' ∈ s :: ss) :=
    hfile.strokes_imported (avoids_selectedBinding (hss s' hs') n)
  by_cases heq : (x.selectedBinding s n).slot = (x.selectedBinding s₁ n).slot
  · obtain ⟨m, hm⟩ := hfile.last n hn
    obtain ⟨id, hid⟩ := slot_pick_self hfile.defines hu hm (hown s List.mem_cons_self)
    exact ⟨m, id, s, List.mem_cons_self, hm, heq ▸ hid⟩
  · have hold : s₁ ∈ ss := (List.mem_cons.1 hs₁).resolve_left fun h =>
      heq (congrArg (fun s => (x.selectedBinding s n).slot) h.symm)
    obtain ⟨m, id, s₂, hs₂, hm, hid⟩ := h n hn s₁ hold
    refine ⟨m, id, s₂, List.mem_cons_of_mem s hs₂, hm, ?_⟩
    rw [← hid]
    exact slot_pick_of_ne hfile.defines hu (by rwa [name_slot_selectedBinding]) (hown s₁ hs₁)

/-- In a slot that is not avoided, a tag leaves what the file imports. -/
lemma leaves_pick_other (hs : ∀ n ∈ s, n ∈ rs ++ zs) (hu : Code.Leaves [] (x.pick s fs) t u)
    {slot : Slot} (hslot : ¬ (x.reselecting rs zs [] []).AvoidsSlot slot) :
    Stroke.Leaves [] (allStrokes slot (Fragment.imports fs)) (t.slot slot) (u.slot slot) := by
  have hleaves := hu.slots slot
  rwa [allStrokes_pick_other hfile.defines] at hleaves
  rintro k rfl
  exact hslot (avoids_selectedBinding hs k)

/-- A name that is not selected keeps its entry, if it is avoided. -/
lemma slot_pick_entry (hu : Code.Leaves [] (x.pick s fs) t u) {n : String} (hn : n ∈ rs ++ zs)
    (hnot : n ∉ s) : u.slot (.entry n) = t.slot (.entry n) := by
  refine slot_pick_of_ne hfile.defines hu ?_ (hfile.strokes_imported hn)
  have hhidden : x.selectedBinding s n = .hidden (x.key n) :=
    if_neg fun h => hnot (List.contains_iff_mem.1 h)
  show (x.selectedBinding s n).slot ≠ .entry n
  rw [hhidden]
  exact nofun

/-- One tag. -/
lemma Relinks.once (hss : ∀ s' ∈ s :: ss, ∀ n ∈ s', n ∈ rs ++ zs) (h : x.Linked fs ss t)
    (hu : Code.Leaves [] (x.pick s fs) t u) : x.Relinks rs zs fs s (s :: ss) t u where
  depth := hu.depth
  others _ hslot := leaves_pick_other hfile (hss s List.mem_cons_self) hu hslot
  kept _ hn hnot := slot_pick_entry hfile hu (List.mem_append_left zs hn) hnot
  linked := h.pick hfile hss hu

/-- **Another tag** directly after the others. What the file imports is the same afterwards as if it
had been imported once. -/
lemma Relinks.again (hss : ∀ s'' ∈ s' :: ss, ∀ n ∈ s'', n ∈ rs ++ zs)
    (hs' : ∀ n ∈ s', n ∈ rs → n ∈ s) (h : x.Relinks rs zs fs s ss t u)
    (hv : Code.Leaves [] (x.pick s' fs) u v) : x.Relinks rs zs fs s (s' :: ss) t v where
  depth := hv.depth.trans h.depth
  others slot hslot := (h.others slot hslot).absorb (fun _ hk => hk)
    (leaves_pick_other hfile (hss s' List.mem_cons_self) hv hslot)
  kept n hn hnot := (slot_pick_entry hfile hv (List.mem_append_left zs hn) fun hmem =>
    hnot (hs' n hmem hn)).trans (h.kept n hn hnot)
  linked := h.linked.pick hfile hss hv

/-- Where two tags have put macros of the same name, there are macros that say the same. -/
lemma Linked.value (h : x.Linked fs ss t) (h' : x.Linked fs ss' t') {n : String}
    (hn : x.has n = true) (hs : s ∈ ss) (hs' : s' ∈ ss') :
    (x.reselecting rs zs ss ss').value (t.read (x.selectedBinding s n))
      (t'.read (x.selectedBinding s' n)) := by
  obtain ⟨m, id, s₁, hs₁, hm, hid⟩ := h n hn s hs
  obtain ⟨m', id', s₁', hs₁', hm', hid'⟩ := h' n hn s' hs'
  obtain rfl : m = m' := Option.some.inj (hm.symm.trans hm')
  obtain ⟨hspared, hscoped⟩ := hfile.own n m (hfile.defines.mem_named (List.mem_of_getLast? hm))
  rw [read_selectedBinding, read_selectedBinding, hid, hid']
  exact .closure id id' (hspared.macros hscoped hs₁ hs₁') .nil

/-- **After the tags** the pages agree again. What the file imports has been imported into pages
that agree, and wherever a tag has put a macro of the file, there is that macro. -/
lemma Matched.relink {tt tt' : List (List String)} (h : x.Matched rs zs fs ss ss' t t')
    (hs : ∀ n ∈ s, x.has n = true) (hwithin : ∀ s ∈ tt ++ tt', ∀ n ∈ s, n ∈ rs ++ zs)
    (htt : ss ⊆ tt) (htt' : ss' ⊆ tt') (hmem : s ∈ tt) (hmem' : s ∈ tt')
    (hu : x.Relinks rs zs fs s tt t u) (hu' : x.Relinks rs zs fs s tt' t' u') :
    x.Matched rs zs fs tt tt' u u' := by
  let D := x.reselecting rs zs tt tt'
  have hle : (x.reselecting rs zs ss ss').Le D := by
    refine ⟨id, id, ?_⟩
    rintro b b' (hb | ⟨n, hn, ⟨s₁, hs₁, hb⟩, s₂, hs₂, hb'⟩)
    · exact .inl hb
    · exact .inr ⟨n, hn, ⟨s₁, htt hs₁, hb⟩, s₂, htt' hs₂, hb'⟩
  have hslots (slot : Slot) (hslot : ¬ D.AvoidsSlot slot)
      (ho : Option.Rel (x.reselecting rs zs ss ss').value (t.slot slot) (t'.slot slot)) :
      Option.Rel D.value (u.slot slot) (u'.slot slot) := by
    refine Detour.leaves_congr (hu.others slot hslot) (hu'.others slot hslot)
      (hfile.code_imports.strokes slot) .nil (.inl (Detour.contents_mono hle ho))
  have hroutes {b b' : Binding} (hb : D.route b b') : D.value (u.read b) (u'.read b') := by
    obtain ⟨n, hn, rfl, rfl⟩ | ⟨n, hn, ⟨s₁, hs₁, rfl⟩, s₂, hs₂, rfl⟩ := hb
    · by_cases hsel : n ∈ s
      · have hvalue := hu.linked.value hfile hu'.linked (hs n hsel) hmem hmem'
        rwa [selectedBinding_of_mem hsel] at hvalue
      · have hvalue := h.agree.routes (.inl ⟨n, hn, rfl, rfl⟩)
        show D.value ((u.slot (.entry n)).getD _) ((u'.slot (.entry n)).getD _)
        rw [hu.kept n hn hsel, hu'.kept n hn hsel]
        exact Detour.value_mono hle hvalue
    · exact hu.linked.value hfile hu'.linked hn hs₁ hs₂
  refine ⟨hwithin, ⟨fun n hn => hslots (.entry n) hn (h.agree.context n hn),
    fun key hkey => hslots (.hidden key) hkey (h.agree.symbols key hkey), hroutes, ?_⟩,
    hu.linked, hu'.linked⟩
  rw [hu'.depth, hu.depth, h.agree.depth]

end Agree

end Exports

end Stencil
