import Stencil.Proofs.Abstraction.Template
import Stencil.Proofs.Selection
import Stencil.Proofs.Transparency

/-!
A second tag for the same file. Put directly after the first one (`Exports.Insertion`), it imports
more macros of the file: these are now in the context, the other ones are bound again, and those
that call each other by way of hidden ones get there in another way. The pages with and without that
tag are **matched** (`Exports.Matched.picked_again`), and they stay so as long as the code of the
page leaves the macros to the tags (`Exports.Matched.spared`) or is another tag for the file
(`Exports.Matched.picked`), be it in a file that the page imports under a name: such code **passes**
and does the same on both pages (`Exports.Passes.follows`).

Between the tags and the calls that are compared, a page may be **loose** and show what only one of
the tags imports. The outputs differ then, but where all definitions stand at the top level of their
files, showing something leaves no trace in the context (`Exports.Matched.loose`). So the main
result is about what more nodes **add** to an output (`Compiler.Adds`): `reselection_unseen`. It
does not hold of pages that define a macro with a name that only the second tag selects
(`siblings_interfere`).
-/

namespace Stencil

namespace Exports

variable {x : Exports} {fs : List Fragment} {rs zs : List String} {ss ss' : List (List String)}
  {t t' u u' : Renderer}

/-! ### Pages around the tags -/

/-- The instruction is on a page that shows what may not be read, or defines what does so. -/
inductive Loose (x : Exports) (zs : List String) : Instr → Prop
  | flat {i : Instr} : i.Flat → Loose x zs i
  | define {n : String} (m : Macro) : n ∈ zs → x.has n = false → Loose x zs (.define (.context n) m)

/-- The code may stand on a page around the tags: it leaves the macros of the file to the tags, and
may have more tags for it, also in files that it imports under a name. Where `loose` holds, it may
also show what is not to be read. -/
inductive Passes (x : Exports) (rs zs : List String) (fs : List Fragment) :
    Prop → List Instr → Prop
  | nil {loose : Prop} : Passes x rs zs fs loose []
  | spared {loose : Prop} {i : Instr} {is : List Instr} : x.Spares rs zs [i] →
      Passes x rs zs fs loose is → Passes x rs zs fs loose (i :: is)
  | picked {loose : Prop} {s : List String} {is : List Instr} :
      (∀ n ∈ s, x.has n = true ∧ n ∈ rs ++ zs) → Passes x rs zs fs loose is →
      Passes x rs zs fs loose (x.pick s fs ++ is)
  | space {loose : Prop} {handle : String} {members markup is : List Instr} :
      handle ∉ rs ++ zs → Passes x rs zs fs False members → x.Spares rs zs markup →
      Passes x rs zs fs loose is →
      Passes x rs zs fs loose (.bindSpace handle members markup :: is)
  | loose {loose : Prop} {i : Instr} {is : List Instr} : loose → x.Loose zs i →
      Passes x rs zs fs loose is → Passes x rs zs fs loose (i :: is)

/-- Compiled code of a page that may stand around the tags. What it shows besides leaves no trace,
if all definitions stand at the top level. -/
structure Around (x : Exports) (rs zs : List String) (fs : List Fragment) (loose : Prop)
    (file : String) (is : List Instr) : Prop where
  passes : x.Passes rs zs fs loose is
  compiled : ∀ i ∈ is, i.Scoped file []
  outermost : loose → ∀ i ∈ is, i.Outermost

/-- A tag for the macros `s'` of a file can be put after one for the macros `s`. The names of the
latter are among those that may be read, and those that only the former selects are not. What the
file imports and defines leaves all of these names to the tags. -/
structure Insertion (x : Exports) (rs zs : List String) (fs : List Fragment) (s s' : List String) :
    Prop where
  has : ∀ n ∈ s ++ s', x.has n = true
  readable : ∀ n ∈ s, n ∈ rs
  others : ∀ n ∈ s', n ∈ s ∨ n ∈ zs
  disjoint : ∀ n ∈ rs, n ∉ zs
  caller : callerName ∉ rs ++ zs
  kwargs : kwargsName ∉ rs ++ zs
  imported : ∀ is, .imported is ∈ fs → x.Spares rs zs is
  own : ∀ n m, .definition n [.define (.context n) m] ∈ fs → x.SparedBy rs zs m

/-- Code that defines nothing inside of what it defines leaves a flat renderer. -/
lemma flat_of_exec {is : List Instr} (his : ∀ i ∈ is, i.Outermost) (ht : t.Flat) {room : Nat}
    {out : String} (hu : exec (invoke room) [] is t = .ok out u) : u.Flat := by
  have hflat := exec_keeps_flat (r := room) .nil his t ht
  rwa [Run.final_of_ok hu] at hflat

/-- Macros of the file are where they have been if the slots of these are as they have been. -/
lemma Linked.congr (h : x.Linked fs ss t)
    (hslot : ∀ n, x.has n = true → ∀ s ∈ ss,
      u.slot (x.selectedBinding s n).slot = t.slot (x.selectedBinding s n).slot) :
    x.Linked fs ss u := by
  intro n hn s hs
  obtain ⟨m, id, s', hs', hm, hid⟩ := h n hn s hs
  exact ⟨m, id, s', hs', hm, (hslot n hn s hs).trans hid⟩

namespace Matched

/-- Identities do not matter. -/
lemma of_same (h : x.Matched rs zs fs ss ss' t t') (hu : t.Same u) (hu' : t'.Same u') :
    x.Matched rs zs fs ss ss' u u' := by
  obtain ⟨context, symbols, depth, fresh⟩ := t
  obtain ⟨context', symbols', depth', fresh'⟩ := t'
  obtain ⟨_, _, _, n⟩ := u
  obtain ⟨_, _, _, n'⟩ := u'
  obtain ⟨rfl, rfl, rfl⟩ := hu
  obtain ⟨rfl, rfl, rfl⟩ := hu'
  refine ⟨h.within, h.agree.renew n n', h.left.congr fun k _ s _ => ?_,
    h.right.congr fun k _ s _ => ?_⟩
  · generalize (x.selectedBinding s k).slot = slot
    cases slot <;> rfl
  · generalize (x.selectedBinding s k).slot = slot
    cases slot <;> rfl

section Steps

variable (h : x.Matched rs zs fs ss ss' t t')

include h

/-- What keeps the places of the macros keeps the pages matched. -/
lemma after (hu : (x.reselecting rs zs ss ss').After 0 t t' u u') :
    x.Matched rs zs fs ss ss' u u' := by
  have hwithin := List.forall_mem_append.1 h.within
  refine ⟨h.within, hu.agree, ?_, ?_⟩
  · exact h.left.congr fun n _ s hs => hu.left.slot_eq (avoids_selectedBinding (hwithin.1 s hs) n)
  · exact h.right.congr fun n _ s hs => hu.right.slot_eq (avoids_selectedBinding (hwithin.2 s hs) n)

section Calls

variable (hcaller : callerName ∉ rs ++ zs) (hkwargs : kwargsName ∉ rs ++ zs)

include hcaller hkwargs

lemma lawful : (x.reselecting rs zs ss ss').Lawful :=
  have hwithin := List.forall_mem_append.1 h.within
  reselecting_lawful hwithin.1 hwithin.2 hcaller hkwargs

/-- Code that leaves the macros to the tags does the same on both pages. -/
lemma spared {is : List Instr} {file : String} (hscoped : ∀ i ∈ is, i.Scoped file [])
    (his : x.Spares rs zs is) (room : Nat) :
    Run.Follows 0 (x.Matched rs zs fs ss ss') Eq (exec (invoke room) [] is t)
      (exec (invoke room) [] is t') := by
  have hD := h.lawful hcaller hkwargs
  exact (hD.exec_sim (hD.invoke_sim room) (his.code hscoped) .nil t t' h.agree).mono
    (fun _ _ hout => hout) fun _ _ hu => h.after hu

/-- Opening a namespace of another name keeps the pages matched, and so does closing it. -/
lemma openSpace {handle : String} (hhandle : handle ∉ rs ++ zs) : x.Matched rs zs fs ss ss'
    (t.mapContext (·.openSpace handle)) (t'.mapContext (·.openSpace handle)) :=
  h.after ⟨h.agree.openSpace (h.lawful hcaller hkwargs) hhandle, .set hhandle t (some _),
    .set hhandle t' (some _)⟩

lemma closeSpace {handle : String} (hhandle : handle ∉ rs ++ zs) {markup : List Instr}
    {file : String} (hscoped : ∀ i ∈ markup, i.Scoped file []) (hmarkup : x.Spares rs zs markup) :
    x.Matched rs zs fs ss ss' (t.mapContext (·.closeSpace handle markup []))
      (t'.mapContext (·.closeSpace handle markup [])) :=
  h.after ⟨h.agree.closeSpace (h.lawful hcaller hkwargs) hhandle (hmarkup.code hscoped) .nil,
    .set hhandle t (some _), .set hhandle t' (some _)⟩

end Calls

/-- A tag on both pages. -/
lemma picked (hfile : x.Tame rs zs fs) {s : List String}
    (hs : ∀ n ∈ s, x.has n = true ∧ n ∈ rs ++ zs) (hu : Code.Leaves [] (x.pick s fs) t u)
    (hu' : Code.Leaves [] (x.pick s fs) t' u') : x.Matched rs zs fs (s :: ss) (s :: ss') u u' := by
  have hwithin := List.forall_mem_append.1 h.within
  have hleft : ∀ s' ∈ s :: ss, ∀ n ∈ s', n ∈ rs ++ zs :=
    List.forall_mem_cons.2 ⟨fun n hn => (hs n hn).2, hwithin.1⟩
  have hright : ∀ s' ∈ s :: ss', ∀ n ∈ s', n ∈ rs ++ zs :=
    List.forall_mem_cons.2 ⟨fun n hn => (hs n hn).2, hwithin.2⟩
  exact h.relink hfile (fun n hn => (hs n hn).1) (List.forall_mem_append.2 ⟨hleft, hright⟩)
    (List.subset_cons_self s ss) (List.subset_cons_self s ss') List.mem_cons_self
    List.mem_cons_self (.once hfile hleft h.left hu) (.once hfile hright h.right hu')

/-- **A tag on both pages**, and another one after it on the second page only. -/
lemma picked_again (hfile : x.Tame rs zs fs) {s s' : List String}
    (hins : x.Insertion rs zs fs s s') {v : Renderer} (hu : Code.Leaves [] (x.pick s fs) t u)
    (hv : Code.Leaves [] (x.pick s fs) t' v) (hu' : Code.Leaves [] (x.pick s' fs) v u') :
    x.Matched rs zs fs (s :: ss) (s' :: s :: ss') u u' := by
  have hwithin := List.forall_mem_append.1 h.within
  have hfirst : ∀ n ∈ s, n ∈ rs ++ zs := fun n hn => List.mem_append_left zs (hins.readable n hn)
  have hsecond : ∀ n ∈ s', n ∈ rs ++ zs := fun n hn =>
    (hins.others n hn).elim (hfirst n) (List.mem_append_right rs)
  have hleft := List.forall_mem_cons.2 ⟨hfirst, hwithin.1⟩
  have hright := List.forall_mem_cons.2 ⟨hfirst, hwithin.2⟩
  have hboth := List.forall_mem_cons.2 ⟨hsecond, hright⟩
  have honce := Relinks.once hfile hright h.right hv
  have hagain := honce.again hfile hboth
    (fun n hn hmem => (hins.others n hn).resolve_right (hins.disjoint n hmem)) hu'
  exact h.relink hfile (fun n hn => hins.has n (List.mem_append_left s' hn))
    (List.forall_mem_append.2 ⟨hleft, hboth⟩) (List.subset_cons_self s ss)
    (List.subset_cons_of_subset s' (List.subset_cons_self s ss')) List.mem_cons_self
    (List.mem_cons_of_mem s' List.mem_cons_self) (.once hfile hleft h.left hu) hagain

/-- Showing anything leaves no trace in flat renderers, and what is defined with names that may not
be read does not concern the other page. -/
lemma loose (hdisjoint : ∀ n ∈ rs, n ∉ zs) {i : Instr} (hi : x.Loose zs i) (ht : t.Flat)
    (ht' : t'.Flat) (room : Nat) :
    x.Matched rs zs fs ss ss' ((execInstr (invoke room) [] i).final t)
      ((execInstr (invoke room) [] i).final t') := by
  cases hi with
  | flat hflat => exact h.of_same (ht.execInstr_same .nil hflat) (ht'.execInstr_same .nil hflat)
  | @define n m hn hnot =>
    have hstrays (t : Renderer) : (x.reselecting rs zs ss ss').Strays t
        ((execInstr (invoke room) [] (.define (.context n) m)).final t) :=
      .bind (show (Binding.context n).root? = some n from rfl) (List.mem_append_right rs hn) t _ _
    have hkept (t : Renderer) {slot : Slot} (hne : .entry n ≠ slot) :
        ((execInstr (invoke room) [] (.define (.context n) m)).final t).slot slot = t.slot slot :=
      (Renderer.slot_bind { t with fresh := t.fresh + 1 } (.context n) m [] t.fresh slot).trans
        ((if_neg hne).trans (by cases slot <;> rfl))
    have hplace {k : String} (hk : x.has k = true) (s : List String) :
        .entry n ≠ (x.selectedBinding s k).slot := by
      intro heq
      have hname := congrArg Slot.name heq
      rw [name_slot_selectedBinding] at hname
      subst hname
      exact absurd (hk.symm.trans hnot) (by decide)
    refine ⟨h.within, h.agree.stray (hstrays t) (hstrays t') ?_, ?_, ?_⟩
    · rintro _ _ (⟨k, hk, rfl, rfl⟩ | ⟨k, hk, ⟨s, hs, rfl⟩, s', hs', rfl⟩)
      · have hentry : Slot.entry n ≠ .entry k := by
          rintro ⟨⟩
          exact hdisjoint n hk hn
        have hvalue := h.agree.routes (.inl ⟨k, hk, rfl, rfl⟩)
        show Detour.value _ ((Renderer.slot _ (.entry k)).getD _)
          ((Renderer.slot _ (.entry k)).getD _)
        rw [hkept t hentry, hkept t' hentry]
        exact hvalue
      · rw [read_selectedBinding, read_selectedBinding, hkept t (hplace hk s),
          hkept t' (hplace hk s'), ← read_selectedBinding, ← read_selectedBinding]
        exact h.agree.routes (.inr ⟨k, hk, ⟨s, hs, rfl⟩, s', hs', rfl⟩)
    · exact h.left.congr fun k hk s _ => hkept t (hplace hk s)
    · exact h.right.congr fun k hk s _ => hkept t' (hplace hk s)

end Steps

end Matched

/-! ### Code around the tags -/

/-- Two pages that are matched are so again when both have run the code. If they may be loose, they
are flat, and so they stay. -/
def Preserves (x : Exports) (rs zs : List String) (fs : List Fragment) (loose : Prop) (room : Nat)
    (is : List Instr) : Prop :=
  ∀ ⦃ss ss' : List (List String)⦄ ⦃t t' u u' : Renderer⦄ ⦃a a' : String⦄,
    x.Matched rs zs fs ss ss' t t' → (loose → t.Flat ∧ t'.Flat) →
    exec (invoke room) [] is t = .ok a u → exec (invoke room) [] is t' = .ok a' u' →
    (∃ tt tt', x.Matched rs zs fs tt tt' u u') ∧ (loose → u.Flat ∧ u'.Flat)

section Preserves

variable {loose : Prop} {room : Nat} {is js : List Instr}

lemma preserves_nil : x.Preserves rs zs fs loose room [] := by
  intro ss ss' t t' u u' a a' h hflat hu hu'
  cases hu
  cases hu'
  exact ⟨⟨ss, ss', h⟩, hflat⟩

lemma Preserves.append (hjs : x.Preserves rs zs fs loose room js)
    (his : x.Preserves rs zs fs loose room is) : x.Preserves rs zs fs loose room (js ++ is) := by
  intro ss ss' t t' u u' a a' h hflat hu hu'
  obtain ⟨_, v, _, hv, hw, _⟩ := ok_of_exec_append hu
  obtain ⟨_, v', _, hv', hw', _⟩ := ok_of_exec_append hu'
  obtain ⟨⟨tt, tt', hmatched⟩, hflat'⟩ := hjs h hflat hv hv'
  exact his hmatched hflat' hw hw'

/-- Renderers stay flat if all definitions stand at the top level. -/
lemma preserves_of_matched (hout : loose → ∀ i ∈ is, i.Outermost)
    (h : ∀ ⦃ss ss' : List (List String)⦄ ⦃t t' u u' : Renderer⦄ ⦃a a' : String⦄,
      x.Matched rs zs fs ss ss' t t' → (loose → t.Flat ∧ t'.Flat) →
      exec (invoke room) [] is t = .ok a u → exec (invoke room) [] is t' = .ok a' u' →
      ∃ tt tt', x.Matched rs zs fs tt tt' u u') : x.Preserves rs zs fs loose room is :=
  fun _ _ _ _ _ _ _ _ hmatched hflat hu hu' => ⟨h hmatched hflat hu hu', fun hl =>
    ⟨flat_of_exec (hout hl) (hflat hl).1 hu, flat_of_exec (hout hl) (hflat hl).2 hu'⟩⟩

end Preserves

section Runs

variable (hfile : x.Tame rs zs fs) (hlinks : ∀ f ∈ fs, f.Links) (hcaller : callerName ∉ rs ++ zs)
  (hkwargs : kwargsName ∉ rs ++ zs)

include hlinks in
/-- A tag succeeds and makes its strokes. -/
lemma exec_pick (s : List String) (t : Renderer) :
    ∃ u, (∀ invoker, exec invoker [] (x.pick s fs) t = .ok "" u) ∧
      Code.Leaves [] (x.pick s fs) t u := by
  exact exec_leaves (x.links_pick hlinks s) [] t

include hfile hlinks hcaller hkwargs

/-- Code that only shows what may be read **does the same on both pages**. -/
lemma Passes.follows {loose : Prop} {is : List Instr} (his : x.Passes rs zs fs loose is)
    (hloose : ¬ loose) {file : String} (hscoped : ∀ i ∈ is, i.Scoped file [])
    (h : x.Matched rs zs fs ss ss' t t') (room : Nat) :
    Run.Follows 0 (fun u u' => ∃ tt tt', x.Matched rs zs fs tt tt' u u') Eq
      (exec (invoke room) [] is t) (exec (invoke room) [] is t') := by
  induction his generalizing ss ss' t t' file with
  | nil => exact .ok rfl ⟨ss, ss', h⟩
  | loose hl => exact (hloose hl).elim
  | @spared _ i is hi _ ih =>
    rw [← List.singleton_append, List.forall_mem_append] at hscoped
    rw [← List.singleton_append, exec_append]
    refine (h.spared hcaller hkwargs hscoped.1 hi room).bind (fun _ _ hu => ⟨ss, ss', hu⟩)
      fun out out' u u' hout hu => ?_
    refine (ih hloose hscoped.2 hu).bind (fun _ _ hv => hv) fun more more' v v' hmore hv => ?_
    exact .ok (by rw [hout, hmore]) hv
  | @picked _ s is hs _ ih =>
    rw [List.forall_mem_append] at hscoped
    obtain ⟨u, hu, hleaves⟩ := exec_pick hlinks s t
    obtain ⟨u', hu', hleaves'⟩ := exec_pick hlinks s t'
    rw [exec_append_of_silent (hu _), exec_append_of_silent (hu' _)]
    exact ih hloose hscoped.2 (h.picked hfile hs hleaves hleaves')
  | @space _ handle members markup is hhandle _ hmarkup _ ihmembers ih =>
    rw [List.forall_mem_cons] at hscoped
    obtain ⟨hspace, hrest⟩ := hscoped
    cases hspace with
    | bindSpace _ hmembers hscoped =>
      have hfilled := ihmembers not_false hmembers (h.openSpace hcaller hkwargs hhandle)
      rw [← List.singleton_append, exec_append, exec_singleton]
      refine Run.Matches.bind (V := Eq)
        (S := fun u u' => ∃ tt tt', x.Matched rs zs fs tt tt' u u') ?_ (fun _ _ hu => hu) ?_
      · refine hfilled.bind (fun _ _ hu => hu) fun out out' u u' hout => ?_
        rintro ⟨tt, tt', hu⟩
        exact .ok hout ⟨tt, tt', hu.closeSpace hcaller hkwargs hhandle hscoped hmarkup⟩
      · rintro out out' u u' hout ⟨tt, tt', hu⟩
        refine (ih hloose hrest hu).bind (fun _ _ hv => hv) fun more more' v v' hmore hv => ?_
        exact .ok (by rw [hout, hmore]) hv

/-- The pages go on agreeing, **whatever is shown** besides. -/
lemma Passes.preserves {loose : Prop} {is : List Instr} (his : x.Passes rs zs fs loose is)
    {file : String} (hscoped : ∀ i ∈ is, i.Scoped file [])
    (hout : loose → ∀ i ∈ is, i.Outermost) (hdisjoint : ∀ n ∈ rs, n ∉ zs) (room : Nat) :
    x.Preserves rs zs fs loose room is := by
  -- pieces that show only what may be read
  have firm {loose : Prop} {js : List Instr} (hjs : x.Passes rs zs fs False js)
      (hscoped : ∀ i ∈ js, i.Scoped file []) (hout : loose → ∀ i ∈ js, i.Outermost) :
      x.Preserves rs zs fs loose room js := by
    refine preserves_of_matched hout fun tt tt' v v' w w' b b' hv _ hw hw' => ?_
    have hstep := hjs.follows hfile hlinks hcaller hkwargs not_false hscoped hv room
    rw [hw, hw'] at hstep
    cases hstep with
    | ok _ hmatched => exact hmatched
  induction his with
  | nil => exact preserves_nil
  | @spared loose i is hi _ ih =>
    rw [List.forall_mem_cons] at hscoped
    simp only [List.forall_mem_cons, imp_and] at hout
    exact .append (firm (.spared hi .nil) (List.forall_mem_singleton.2 hscoped.1)
      fun hl => List.forall_mem_singleton.2 (hout.1 hl)) (ih hscoped.2 hout.2)
  | @picked loose s is hs _ ih =>
    rw [List.forall_mem_append] at hscoped
    simp only [List.forall_mem_append, imp_and] at hout
    have hpick : x.Passes rs zs fs False (x.pick s fs) :=
      List.append_nil (x.pick s fs) ▸ .picked hs .nil
    exact .append (firm hpick hscoped.1 hout.1) (ih hscoped.2 hout.2)
  | @space loose handle members markup is hhandle hmembers hmarkup _ _ ih =>
    rw [List.forall_mem_cons] at hscoped
    simp only [List.forall_mem_cons, imp_and] at hout
    exact .append (firm (.space hhandle hmembers hmarkup .nil)
      (List.forall_mem_singleton.2 hscoped.1) fun hl => List.forall_mem_singleton.2 (hout.1 hl))
      (ih hscoped.2 hout.2)
  | @loose loose i is hl hi _ ih =>
    rw [List.forall_mem_cons] at hscoped
    simp only [List.forall_mem_cons, imp_and] at hout
    have hfirst : x.Preserves rs zs fs loose room [i] := by
      refine preserves_of_matched (fun hl => List.forall_mem_singleton.2 (hout.1 hl))
        fun tt tt' v v' w w' b b' hv hflat hw hw' => ?_
      have hstep := hv.loose hdisjoint hi (hflat hl).1 (hflat hl).2 room
      rw [← exec_singleton, Run.final_of_ok hw, Run.final_of_ok hw'] at hstep
      exact ⟨tt, tt', hstep⟩
    exact hfirst.append (ih hscoped.2 hout.2)

end Runs

section Tags

variable (hfile : x.Tame rs zs fs) (hlinks : ∀ f ∈ fs, f.Links) {s s' : List String}
  (hins : x.Insertion rs zs fs s s') {file : String} {loose : Prop}

include hfile hlinks hins

lemma Around.preserves {is : List Instr} (his : x.Around rs zs fs loose file is) (room : Nat) :
    x.Preserves rs zs fs loose room is :=
  his.passes.preserves hfile hlinks hins.caller hins.kwargs his.compiled his.outermost
    hins.disjoint room

variable {pre mid post : List Instr} (hpre : x.Around rs zs fs loose file pre)
  (h : x.Matched rs zs fs ss ss' t t) (ht : loose → t.Flat) {room : Nat}

include hpre h ht

/-- The pages agree after the second tag, and after more code that shows anything. -/
lemma matched_of_tags (hmid : x.Around rs zs fs loose file mid)
    (hfs : loose → ∀ f ∈ fs, f.Outermost) {a a' : String}
    (hu : exec (invoke room) [] (pre ++ (x.pick s fs ++ mid)) t = .ok a u)
    (hu' : exec (invoke room) [] (pre ++ ((x.pick s fs ++ x.pick s' fs) ++ mid)) t = .ok a' u') :
    ∃ tt tt', x.Matched rs zs fs tt tt' u u' := by
  obtain ⟨_, v, _, hv, hu, _⟩ := ok_of_exec_append hu
  obtain ⟨_, v', _, hv', hu', _⟩ := ok_of_exec_append hu'
  cases hv.symm.trans hv'
  obtain ⟨w, hw, hleaves⟩ := exec_pick hlinks s v
  obtain ⟨w', hw', hleaves'⟩ := exec_pick hlinks s' w
  rw [exec_append_of_silent (hw _)] at hu
  rw [List.append_assoc, exec_append_of_silent (hw _), exec_append_of_silent (hw' _)] at hu'
  obtain ⟨⟨tt, tt', hagree⟩, hflat⟩ := hpre.preserves hfile hlinks hins room h
    (fun hl => ⟨ht hl, ht hl⟩) hv hv
  have hflat (hl : loose) : w.Flat :=
    flat_of_exec (outermost_pick (hfs hl) x s) (hflat hl).1 (hw (invoke room))
  have hflat' (hl : loose) : w'.Flat :=
    flat_of_exec (outermost_pick (hfs hl) x s') (hflat hl) (hw' (invoke room))
  exact (hmid.preserves hfile hlinks hins room
    (hagree.picked_again hfile hins hleaves hleaves hleaves')
    (fun hl => ⟨hflat hl, hflat' hl⟩) hu hu').1

/-- Code that follows the tags directly puts out the same, or fails with the same error. -/
lemma outcome_of_tags (hpost : x.Around rs zs fs False file post) :
    (exec (invoke room) [] (pre ++ ((x.pick s fs ++ x.pick s' fs) ++ post))).outcome t =
      (exec (invoke room) [] (pre ++ (x.pick s fs ++ post))).outcome t := by
  cases hv : exec (invoke room) [] pre t with
  | error e v =>
    have hfail (js : List Instr) : exec (invoke room) [] (pre ++ js) t = .error e v := by
      rw [exec_append, Run.bind_of_error hv]
    rw [Run.outcome, Run.outcome, hfail, hfail]
  | ok a v =>
    obtain ⟨w, hw, hleaves⟩ := exec_pick hlinks s v
    obtain ⟨w', hw', hleaves'⟩ := exec_pick hlinks s' w
    obtain ⟨⟨tt, tt', hagree⟩, _⟩ := hpre.preserves hfile hlinks hins room h
      (fun hl => ⟨ht hl, ht hl⟩) hv hv
    have hfollows := hpost.passes.follows hfile hlinks hins.caller hins.kwargs not_false
      hpost.compiled (hagree.picked_again hfile hins hleaves hleaves hleaves') room
    have htags : (exec (invoke room) [] ((x.pick s fs ++ x.pick s' fs) ++ post)).outcome v =
        (exec (invoke room) [] (x.pick s fs ++ post)).outcome v := by
      rw [Run.outcome, Run.outcome, List.append_assoc, exec_append_of_silent (hw _),
        exec_append_of_silent (hw _), exec_append_of_silent (hw' _)]
      exact hfollows.same_outcome.symm
    rw [outcome_exec_append hv, outcome_exec_append hv, htags]

end Tags

/-! ### Pages -/

/-- Data agree with themselves before any tag. -/
lemma matched_start {data : Json} {context : Context} (h : Context.ofJson data = .ok context)
    (fresh : Nat) : x.Matched rs zs fs [] [] (.start context fresh) (.start context fresh) where
  within _ hs := nomatch hs
  agree := by
    refine ⟨fun n _ => Context.rel_ofJson h n, fun _ _ => .none, ?_, rfl⟩
    rintro _ _ (⟨n, _, rfl, rfl⟩ | ⟨_, _, ⟨_, hs, _⟩, _⟩)
    · exact .getD (Context.rel_ofJson h n)
    · cases hs
  left _ _ _ hs := nomatch hs
  right _ _ _ hs := nomatch hs

end Exports

namespace Compiler

variable {c : Compiler} {page : SourceFile} {context : Context} {ns ms : List Node}

/-- The fragments of an imported file are tame if what the file imports and defines leaves its
macros to the tags. -/
lemma tame_of_imported {path file : String} {fs : List Fragment}
    (himported : (c.scope page).imported path = .ok (file, fs)) {rs zs s s' : List String}
    (hins : (Exports.ofFragments file fs).Insertion rs zs fs s s') :
    (Exports.ofFragments file fs).Tame rs zs fs := by
  have hdefines := defines_of_imported himported
  have hscoped := scoped_of_imported himported
  exact ⟨hdefines, fun n hn => hdefines.exists_last (Exports.has_ofFragments.1 hn),
    fun is his => ⟨hins.imported is his, hscoped _ his⟩,
    fun n m hm => ⟨hins.own n m hm, hscoped _ hm _ List.mem_cons_self⟩⟩

/-- What more nodes add to what a page puts out, if the page puts out anything. -/
def Adds (c : Compiler) (page : SourceFile) (context : Context) (ns more : List Node)
    (r : Except Error String) : Prop :=
  ∀ out, c.outputOf page ns context = .ok out →
    c.outputOf page (ns ++ more) context = r.map (out ++ ·)

/-- What nodes put out from a renderer on. -/
def outputFrom (c : Compiler) (page : SourceFile) (ns : List Node) (t : Renderer) :
    Except Error String :=
  (c.scope page).nodes [] ns >>= fun is =>
    ((exec (invoke maxCallDepth) [] is).outcome t).mapError .render

lemma outputOf_eq_outputFrom (c : Compiler) (page : SourceFile) (ns : List Node)
    (context : Context) : c.outputOf page ns context = c.outputFrom page ns (.start context 0) := by
  rw [outputOf_eq, outputFrom]
  cases (c.scope page).nodes [] ns with
  | error e => rfl
  | ok is => exact Cli.renderWith_eq context ⟨page.name, is⟩

/-- A page that puts out something has been compiled and run. -/
lemma run_of_outputOf {out : String} (h : c.outputOf page ns context = .ok out) :
    ∃ is t, (c.scope page).nodes [] ns = .ok is ∧
      exec (invoke maxCallDepth) [] is (.start context 0) = .ok out t := by
  rw [outputOf_eq_outputFrom] at h
  obtain ⟨is, his, h⟩ := ok_of_bind h
  refine ⟨is, ?_⟩
  rw [Run.outcome] at h
  cases hr : exec (invoke maxCallDepth) [] is (.start context 0) with
  | ok a t =>
    rw [hr] at h
    cases h
    exact ⟨t, his, rfl⟩
  | error e t =>
    rw [hr] at h
    cases h

/-- What more nodes add is what they put out from where the others have come to. -/
lemma outputOf_append {is : List Instr} {out : String} {t : Renderer}
    (hns : (c.scope page).nodes [] ns = .ok is)
    (h : exec (invoke maxCallDepth) [] is (.start context 0) = .ok out t) :
    c.outputOf page (ns ++ ms) context = (c.outputFrom page ms t).map (out ++ ·) := by
  rw [outputOf_eq_outputFrom, outputFrom, FileScope.nodes_append_bind, hns, outputFrom]
  cases (c.scope page).nodes [] ms with
  | error e => rfl
  | ok js =>
    show ((exec (invoke maxCallDepth) [] (is ++ js)).outcome _).mapError Error.render =
      (((exec (invoke maxCallDepth) [] js).outcome t).mapError Error.render).map (out ++ ·)
    rw [outcome_exec_append h]
    cases (exec (invoke maxCallDepth) [] js).outcome t <;> rfl

/-- Nodes add the same to two pages if they put out the same from where the two have come to. -/
lemma exists_adds {ns' : List Node} (h : ∀ {is is' out out' t t'},
      (c.scope page).nodes [] ns = .ok is →
      exec (invoke maxCallDepth) [] is (.start context 0) = .ok out t →
      (c.scope page).nodes [] ns' = .ok is' →
      exec (invoke maxCallDepth) [] is' (.start context 0) = .ok out' t' →
      c.outputFrom page ms t' = c.outputFrom page ms t) :
    ∃ r, c.Adds page context ns ms r ∧ c.Adds page context ns' ms r := by
  have hadds {ns : List Node} {is : List Instr} {out : String} {t : Renderer}
      (hns : (c.scope page).nodes [] ns = .ok is)
      (hrun : exec (invoke maxCallDepth) [] is (.start context 0) = .ok out t) :
      c.Adds page context ns ms (c.outputFrom page ms t) := by
    intro out' hout
    obtain ⟨is', t', hns', hrun'⟩ := run_of_outputOf hout
    cases hns.symm.trans hns'
    cases hrun.symm.trans hrun'
    exact outputOf_append hns hrun
  by_cases hns : ∃ out, c.outputOf page ns context = .ok out
  · obtain ⟨out, hout⟩ := hns
    obtain ⟨is, t, hns, hrun⟩ := run_of_outputOf hout
    refine ⟨_, hadds hns hrun, fun out' hout' => ?_⟩
    obtain ⟨is', t', hns', hrun'⟩ := run_of_outputOf hout'
    rw [← h hns hrun hns' hrun']
    exact outputOf_append hns' hrun'
  · by_cases hns' : ∃ out', c.outputOf page ns' context = .ok out'
    · obtain ⟨out', hout'⟩ := hns'
      obtain ⟨is', t', hns', hrun'⟩ := run_of_outputOf hout'
      exact ⟨_, fun out hout => (hns ⟨out, hout⟩).elim, hadds hns' hrun'⟩
    · exact ⟨c.outputOf page ns context, fun out hout => (hns ⟨out, hout⟩).elim,
        fun out' hout' => (hns' ⟨out', hout'⟩).elim⟩

end Compiler

namespace FileScope

variable {u : FileScope} {ns ms tags : List Node} {is : List Instr}

/-- The code of tags stands between that of what is around them. -/
lemma nodes_around (htags : u.nodes [] tags = .ok is) : u.nodes [] (ns ++ (tags ++ ms)) =
    u.nodes [] ns >>= fun pre => u.nodes [] ms >>= fun post => .ok (pre ++ (is ++ post)) := by
  rw [nodes_append_bind, nodes_append_bind, htags]
  cases u.nodes [] ns with
  | error e => rfl
  | ok pre => cases u.nodes [] ms <;> rfl

/-- What the nodes compile to may stand around the tags for a file. -/
def Passes (u : FileScope) (x : Exports) (rs zs : List String) (fs : List Fragment) (loose : Prop)
    (ns : List Node) : Prop :=
  ∀ is, u.nodes [] ns = .ok is → x.Passes rs zs fs loose is

end FileScope

namespace Compiler

section Pages

variable {c : Compiler} {page : SourceFile} {ns : List Node}

/-- Nodes of the page that compile become code that may stand around the tags. -/
lemma around_of_nodes {x : Exports} {rs zs : List String} {fs : List Fragment} {loose : Prop}
    (h : (c.scope page).Passes x rs zs fs loose ns) (hlegible : ∀ n ∈ ns, n.Legible c.tags)
    (hout : loose → c.LibraryOutermost ∧ ∀ n ∈ ns, n.Outermost) {is : List Instr}
    (hns : (c.scope page).nodes [] ns = .ok is) : x.Around rs zs fs loose page.name is where
  passes := h is hns
  compiled := FileScope.Compiles.scoped
    (fun _ _ _ himported => List.forall_mem_flatMap.2 (scoped_of_imported himported))
    (FileScope.compiles_of_nodes hlegible hns)
  outermost hl := FileScope.outermost_of_nodes (u := c.scope page)
    (outermost_of_fragments (hout hl).1 c.room [page.name]) (hout hl).2 hns

end Pages

end Compiler

/-- **Tags for the same file do not interfere.** A second tag directly after the first one changes
nothing in what the page puts out if the code around the tags leaves the macros to them. Code that
directly follows the tags may also show macros that only the second tag selects, and define macros
of such names that the file does not have, if all definitions stand at the top level: then what
comes after it and shows none of these adds the same to the outputs of both pages. -/
theorem reselection_unseen {c : Compiler} {page : SourceFile} {before after rest : List Node}
    {head head' : TagHead} {content content' : List Node}
    (hpage : c.nodes page = .ok (before ++ .tag head content :: (after ++ rest)))
    {h h' : ImportNames} (hargs : head.args = .importNames h)
    (hargs' : head'.args = .importNames h')
    (hlegible : head'.Legible c.tags) (hpath : h'.path = h.path) {file : String}
    {fs : List Fragment} (himported : (c.scope page).imported h.path = .ok (file, fs))
    {rs zs : List String}
    (hins : (Exports.ofFragments file fs).Insertion rs zs fs h.names h'.names)
    (hbefore : (c.scope page).Passes (.ofFragments file fs) rs zs fs
      (c.LibraryOutermost ∧ c.Outermost page) before)
    (hafter : (c.scope page).Passes (.ofFragments file fs) rs zs fs
      (c.LibraryOutermost ∧ c.Outermost page) after)
    (hrest : (c.scope page).Passes (.ofFragments file fs) rs zs fs False rest) {data : Json}
    {context : Context} (hdata : Context.ofJson data = .ok context) :
    (after = [] → c.outputOf page (before ++ .tag head content :: .tag head' content' :: rest)
      context = c.output page context) ∧
    ∃ r, c.Adds page context (before ++ .tag head content :: after) rest r ∧
      c.Adds page context (before ++ .tag head content :: .tag head' content' :: after) rest r := by
  let x := Exports.ofFragments file fs
  let loose := c.LibraryOutermost ∧ c.Outermost page
  have hfile : x.Tame rs zs fs := Compiler.tame_of_imported himported hins
  have hlinks := Compiler.links_of_fragments himported
  have hfs (hl : loose) := Compiler.outermost_of_fragments hl.1 _ _ _ _ _ himported
  have hlegibles := Compiler.legible_of_nodes hpage
  have houts (hl : loose) := hl.2 _ hpage
  simp only [List.forall_mem_append, List.forall_mem_cons] at hlegibles houts
  have htag : (c.scope page).node [] (.tag head content) = .ok (x.pick h.names fs) :=
    FileScope.node_importNames_of (legible_head hlegibles.2.1) hargs himported fun n hn =>
      hins.has n (List.mem_append_left _ hn)
  have htag' : (c.scope page).node [] (.tag head' content') = .ok (x.pick h'.names fs) :=
    FileScope.node_importNames_of hlegible hargs' (hpath ▸ himported) fun n hn =>
      hins.has n (List.mem_append_right _ hn)
  have hnodes (ns : List Node) : (c.scope page).nodes [] (before ++ .tag head content :: ns) = _ :=
    FileScope.nodes_around (FileScope.nodes_singleton htag)
  have hnodes' (ns : List Node) : (c.scope page).nodes []
      (before ++ .tag head content :: .tag head' content' :: ns) = _ :=
    FileScope.nodes_around
      (FileScope.nodes_append (FileScope.nodes_singleton htag) (FileScope.nodes_singleton htag'))
  have hpre {is : List Instr} (his : (c.scope page).nodes [] before = .ok is) :=
    Compiler.around_of_nodes hbefore hlegibles.1 (fun hl => ⟨hl.1, (houts hl).1⟩) his
  have hmid {is : List Instr} (his : (c.scope page).nodes [] after = .ok is) :=
    Compiler.around_of_nodes hafter hlegibles.2.2.1 (fun hl => ⟨hl.1, (houts hl).2.2.1⟩) his
  have hpost {is : List Instr} (his : (c.scope page).nodes [] rest = .ok is) :=
    Compiler.around_of_nodes hrest hlegibles.2.2.2 False.elim his
  have hstart : x.Matched rs zs fs [] [] _ _ := Exports.matched_start hdata 0
  have hflat (_ : loose) := Renderer.flat_start hdata 0
  constructor
  · rintro rfl
    rw [Compiler.output_eq hpage, Compiler.outputOf_eq_outputFrom, Compiler.outputOf_eq_outputFrom,
      Compiler.outputFrom, Compiler.outputFrom, hnodes', List.nil_append, hnodes]
    cases hb : (c.scope page).nodes [] before with
    | error e => rfl
    | ok pre =>
      cases hr : (c.scope page).nodes [] rest with
      | error e => rfl
      | ok post =>
        exact congrArg (Except.mapError Error.render)
          (Exports.outcome_of_tags hfile hlinks hins (hpre hb) hstart hflat (hpost hr))
  · refine Compiler.exists_adds fun {is is' out out' t t'} hns hrun hns' hrun' => ?_
    rw [hnodes] at hns
    rw [hnodes'] at hns'
    obtain ⟨pre, hb, hns⟩ := ok_of_bind hns
    obtain ⟨mid, hm, hns⟩ := ok_of_bind hns
    rw [hb, hm] at hns'
    cases hns
    cases hns'
    obtain ⟨ss, ss', hmatched⟩ := Exports.matched_of_tags hfile hlinks hins (hpre hb) hstart hflat
      (hmid hm) hfs hrun hrun'
    rw [Compiler.outputFrom, Compiler.outputFrom]
    cases hr : (c.scope page).nodes [] rest with
    | error e => rfl
    | ok post =>
      have hfollows := (hpost hr).passes.follows hfile hlinks hins.caller hins.kwargs
        not_false (hpost hr).compiled hmatched maxCallDepth
      exact congrArg (Except.mapError Error.render) hfollows.same_outcome.symm

/-! ### An example -/

namespace Greeting

/-- A page that imports one of the macros and calls both:
`{% from "lib" import hi %}{{ b(name) }}{{ hi(name) }}`. -/
def calling : String :=
  "\x7b% from \"lib\" import hi %\x7d\x7b\x7b b(name) \x7d\x7d\x7b\x7b hi(name) \x7d\x7d"

/-- The tag that imports the other macro. -/
def importOther : Node :=
  .tag ⟨"from", .importNames ⟨"lib", ["b"], false⟩, 1, ⟨26, 51⟩⟩ []

lemma calling_read : compiler.nodes ⟨"page", calling⟩ =
    .ok [importNames, call (.var "b") "b(name)" 26 39, call (.var "hi") "hi(name)" 39 53] := by
  have hread : Node.ofSource .standard calling =
      .ok [importNames, call (.var "b") "b(name)" 26 39, call (.var "hi") "hi(name)" 39 53] := by
    refine Node.ofSource_of [⟨.tag, " from \"lib\" import hi ".toList, 0, 1⟩,
      ⟨.output, " b(name) ".toList, 26, 1⟩, ⟨.output, " hi(name) ".toList, 39, 1⟩]
      (by decide +kernel) ?_
    rw [Builder.foldlM_add (Builder.add_tag ⟨rfl, by cbv, by cbv, by cbv, by cbv⟩ .importNames
        [⟨.blank, " ", ⟨7, 8⟩, 1⟩, ⟨.string, "\"lib\"", ⟨8, 13⟩, 1⟩, ⟨.blank, " ", ⟨13, 14⟩, 1⟩,
          ⟨.path, "import", ⟨14, 20⟩, 1⟩, ⟨.blank, " ", ⟨20, 21⟩, 1⟩, ⟨.path, "hi", ⟨21, 23⟩, 1⟩,
          ⟨.blank, " ", ⟨23, 24⟩, 1⟩]
        (.importNames ⟨"lib", ["hi"], false⟩) (by cbv) (by cbv) (by decide +kernel) (by cbv)),
      Builder.foldlM_add (Builder.add_output
        [⟨.blank, " ", ⟨28, 29⟩, 1⟩, ⟨.call, "b", ⟨29, 31⟩, 1⟩, ⟨.path, "name", ⟨31, 35⟩, 1⟩,
          ⟨.parenClose, ")", ⟨35, 36⟩, 1⟩, ⟨.blank, " ", ⟨36, 37⟩, 1⟩]
        (.call (.var "b") [.var "name"] []) rfl (by cbv) (by decide +kernel) (by cbv)),
      Builder.foldlM_add (Builder.add_output
        [⟨.blank, " ", ⟨41, 42⟩, 1⟩, ⟨.call, "hi", ⟨42, 45⟩, 1⟩, ⟨.path, "name", ⟨45, 49⟩, 1⟩,
          ⟨.parenClose, ")", ⟨49, 50⟩, 1⟩, ⟨.blank, " ", ⟨50, 51⟩, 1⟩]
        (.call (.var "hi") [.var "name"] []) rfl (by cbv) (by decide +kernel) (by cbv))]
    rfl
  show (Node.ofSource .standard calling).mapError _ = _
  rw [hread]
  rfl

/-- The macro `b` can be imported after the macro `hi`. -/
lemma insertion :
    exports.Insertion ["hi"] ["b"] (compiled.map (Macro.fragment "lib")) ["hi"] ["b"] where
  has := by decide
  readable := by decide
  others := by decide
  disjoint := by decide
  caller := by decide
  kwargs := by decide
  imported is his := by
    obtain ⟨m, _, hm⟩ := List.mem_map.1 his
    cases hm
  own n m hm := by
    obtain ⟨m₀, hm₀, heq⟩ := List.mem_map.1 hm
    cases heq
    have hcase : m₀ = compiled[0] ∨ m₀ = compiled[1] := by simpa [compiled] using hm₀
    obtain rfl | rfl := hcase
    · have hwrites : (compiled[0].writtenIn "lib").writes = [.context "x"] := rfl
      have hreferences : (compiled[0].writtenIn "lib").references = [.param "x"] := rfl
      have hsealed : (compiled[0].writtenIn "lib").sealed = [] := rfl
      exact ⟨by decide, by simp [hsealed], by simp [hreferences],
        by simp [hwrites, hreferences, hsealed]⟩
    · have hwrites : (compiled[1].writtenIn "lib").writes = [.context "name", .context "n"] := rfl
      have hreferences : (compiled[1].writtenIn "lib").references =
          [.context "b", .param "name", .param "n"] := rfl
      have hsealed : (compiled[1].writtenIn "lib").sealed = [] := rfl
      refine ⟨by decide, by simp [hsealed], fun n hn _ => ?_,
        by simp [hwrites, hreferences, hsealed]⟩
      rw [List.mem_singleton.1 hn]
      decide

/-- A tag of the page that imports macros of the file. -/
lemma calling_selects {names : List String} (hnames : ∀ n ∈ names, n ∈ compiled.map (·.name))
    (start stop : Nat) : (compiler.scope ⟨"page", calling⟩).node []
        (.tag ⟨"from", .importNames ⟨"lib", names, false⟩, 1, ⟨start, stop⟩⟩ []) =
      .ok (compiled.map fun m => .define (exports.selectedBinding names m.name)
        ((m.writtenIn "lib").replace (exports.symbolOf names))) :=
  have hlegible : TagHead.Legible (compiler.scope ⟨"page", calling⟩).tags
      ⟨"from", .importNames ⟨"lib", names, false⟩, 1, ⟨start, stop⟩⟩ :=
    ⟨.importNames, rfl, .importNames _⟩
  FileScope.node_importNames hlegible rfl (library_imported calling) hnames

lemma calling_outermost :
    compiler.LibraryOutermost ∧ compiler.Outermost ⟨"page", calling⟩ :=
  ⟨library_outermost, outermost_of_read calling_read
    (by simp [importNames, call, Node.Outermost])⟩

end Greeting

open Greeting in
/-- The page of the example, and the same page with a second tag: `hi(name)` adds the same to both,
while `b(name)` puts out nothing on the one page and `<Ada>` on the other. -/
theorem greeting_reselected :
    compiler.nodes ⟨"page", calling⟩ = .ok ([] ++ importNames ::
      ([call (.var "b") "b(name)" 26 39] ++ [call (.var "hi") "hi(name)" 39 53])) ∧
    (compiler.LibraryOutermost ∧ compiler.Outermost ⟨"page", calling⟩) ∧
    compiler.output ⟨"page", calling⟩ context = .ok "Hi <Ada>" ∧
    compiler.outputOf ⟨"page", calling⟩ [importNames, importOther,
      call (.var "b") "b(name)" 26 39, call (.var "hi") "hi(name)" 39 53] context =
      .ok ("<Ada>" ++ "Hi <Ada>") := by
  have hread : compiler.nodes ⟨"page", calling⟩ = .ok ([] ++ importNames ::
      ([call (.var "b") "b(name)" 26 39] ++ [call (.var "hi") "hi(name)" 39 53])) := calling_read
  have hlegible : TagHead.Legible compiler.tags
      ⟨"from", .importNames ⟨"lib", ["b"], false⟩, 1, ⟨26, 51⟩⟩ :=
    ⟨.importNames, rfl, .importNames _⟩
  have hargs : TagHead.args ⟨"from", .importNames ⟨"lib", ["b"], false⟩, 1, ⟨26, 51⟩⟩ =
      .importNames ⟨"lib", ["b"], false⟩ := rfl
  have hfirst := calling_selects (show ∀ n ∈ ["hi"], n ∈ compiled.map (·.name) by decide) 0 26
  have hsecond := calling_selects (show ∀ n ∈ ["b"], n ∈ compiled.map (·.name) by decide) 26 51
  have hone : compiler.outputOf ⟨"page", calling⟩
      [importNames, call (.var "b") "b(name)" 26 39] context = .ok "" := by
    rw [Compiler.outputOf_eq, FileScope.nodes, importNames, hfirst]
    rfl
  have htwo : compiler.outputOf ⟨"page", calling⟩
      [importNames, importOther, call (.var "b") "b(name)" 26 39] context = .ok "<Ada>" := by
    rw [Compiler.outputOf_eq, FileScope.nodes, importNames, hfirst, FileScope.nodes, importOther,
      hsecond]
    rfl
  have hwhole : compiler.output ⟨"page", calling⟩ context = .ok "Hi <Ada>" := by
    rw [Compiler.output_eq calling_read, Compiler.outputOf_eq, FileScope.nodes, importNames, hfirst]
    rfl
  have hafter : (compiler.scope ⟨"page", calling⟩).Passes exports ["hi"] ["b"]
      (compiled.map (Macro.fragment "lib"))
      (compiler.LibraryOutermost ∧ compiler.Outermost ⟨"page", calling⟩)
      [call (.var "b") "b(name)" 26 39] := by
    rintro is h
    cases h
    exact .loose calling_outermost (.flat (.output _)) .nil
  have hrest : (compiler.scope ⟨"page", calling⟩).Passes exports ["hi"] ["b"]
      (compiled.map (Macro.fragment "lib")) False [call (.var "hi") "hi(name)" 39 53] := by
    rintro is h
    have hcode : (compiler.scope ⟨"page", calling⟩).nodes [] [call (.var "hi") "hi(name)" 39 53] =
        .ok [.output (.call (.context "hi") [.context "name"] [])] := rfl
    cases hcode.symm.trans h
    refine .spared ⟨by decide, by decide, fun key _ => ?_⟩ .nil
    simp [Code.Touches, allWrites, Instr.writes, allReferences, Instr.references, allSealed,
      Instr.sealed, Expr.references, Expr.itemReferences, Expr.entryReferences]
  obtain ⟨_, r, hadds, hadds'⟩ := reselection_unseen hread rfl hargs hlegible rfl
    (library_imported calling) insertion (fun _ h => Except.ok.inj h ▸ .nil) hafter hrest data_read
  refine ⟨calling_read, calling_outermost, hwhole, (hadds' _ htwo).trans ?_⟩
  have hr : r.map ("" ++ ·) = .ok "Hi <Ada>" :=
    (hadds _ hone).symm.trans ((Compiler.output_eq calling_read).symm.trans hwhole)
  cases r with
  | error e => cases hr
  | ok out =>
    have hout : "" ++ out = "Hi <Ada>" := Except.ok.inj hr
    rw [String.empty_append] at hout
    rw [hout]
    rfl

namespace Siblings

/-- A file in which two macros call `b` by way of a third one, and one of them has a parameter of
that name: `{% macro a() %}{{ h() }}{% endmacro %}`, `{% macro h() %}{{ b() }}{% endmacro %}`,
`{% macro b() %}B{% endmacro %}` and `{% macro c(b) %}{{ h() }}{% endmacro %}`. -/
def macros : String :=
  "\x7b% macro a() %\x7d\x7b\x7b h() \x7d\x7d\x7b% endmacro %\x7d" ++
    "\x7b% macro h() %\x7d\x7b\x7b b() \x7d\x7d\x7b% endmacro %\x7d" ++
    "\x7b% macro b() %\x7dB\x7b% endmacro %\x7d" ++
    "\x7b% macro c(b) %\x7d\x7b\x7b h() \x7d\x7d\x7b% endmacro %\x7d"

/-- A page that imports `a` and `c`, and defines a macro of the name `b` between two calls:
`{% from "lib" import a, c %}{{ c() }}{% macro b() %}page{% endmacro %}{{ a() }}`. -/
def page : String :=
  "\x7b% from \"lib\" import a, c %\x7d\x7b\x7b c() \x7d\x7d" ++
    "\x7b% macro b() %\x7dpage\x7b% endmacro %\x7d\x7b\x7b a() \x7d\x7d"

/-- A call without arguments, and the definition of a macro. -/
def call (name source : String) (start stop : Nat) : Node :=
  .output ⟨.call (.var name) [] [], source, 1, ⟨start, stop⟩⟩

def defining (sig : Signature) (body : List Node) (start stop : Nat) : Node :=
  .tag ⟨"macro", .definition sig, 1, ⟨start, stop⟩⟩ body

/-- A tag that imports macros of the file. -/
def importing (names : List String) (start stop : Nat) : Node :=
  .tag ⟨"from", .importNames ⟨"lib", names, false⟩, 1, ⟨start, stop⟩⟩ []

/-- The nodes of the file, and those of the page after its tag. -/
def definitions : List Node :=
  [defining ⟨"a", []⟩ [call "h" "h()" 15 24] 0 38,
    defining ⟨"h", []⟩ [call "b" "b()" 53 62] 38 76,
    defining ⟨"b", []⟩ [.text "B"] 76 106,
    defining ⟨"c", [⟨"b", none⟩]⟩ [call "h" "h()" 122 131] 106 145]

def rest : List Node :=
  [call "c" "c()" 28 37, defining ⟨"b", []⟩ [.text "page"] 37 70, call "a" "a()" 70 79]

/-- The file can be imported. -/
def compiler : Compiler where
  tags := .standard
  library := ⟨fun name => if name = "lib" then some macros else none, fun _ => none⟩
  maxDepth := 2

lemma macros_read : Node.ofSource .standard macros = .ok definitions := by
  refine Node.ofSource_of [⟨.tag, " macro a() ".toList, 0, 1⟩, ⟨.output, " h() ".toList, 15, 1⟩,
    ⟨.tag, " endmacro ".toList, 24, 1⟩, ⟨.tag, " macro h() ".toList, 38, 1⟩,
    ⟨.output, " b() ".toList, 53, 1⟩, ⟨.tag, " endmacro ".toList, 62, 1⟩,
    ⟨.tag, " macro b() ".toList, 76, 1⟩, ⟨.text, "B".toList, 91, 1⟩,
    ⟨.tag, " endmacro ".toList, 92, 1⟩, ⟨.tag, " macro c(b) ".toList, 106, 1⟩,
    ⟨.output, " h() ".toList, 122, 1⟩, ⟨.tag, " endmacro ".toList, 131, 1⟩] (by decide +kernel) ?_
  rw [Builder.foldlM_add (Builder.add_tag ⟨rfl, by cbv, by cbv, by cbv, by cbv⟩ .definition
      [⟨.blank, " ", ⟨8, 9⟩, 1⟩, ⟨.emptyCall, "a", ⟨9, 12⟩, 1⟩, ⟨.blank, " ", ⟨12, 13⟩, 1⟩]
      (.definition ⟨"a", []⟩) (by cbv) (by cbv) (by decide +kernel) (by cbv)),
    Builder.foldlM_add (Builder.add_output
      [⟨.blank, " ", ⟨17, 18⟩, 1⟩, ⟨.emptyCall, "h", ⟨18, 21⟩, 1⟩, ⟨.blank, " ", ⟨21, 22⟩, 1⟩]
      (.call (.var "h") [] []) rfl (by cbv) (by decide +kernel) (by cbv)),
    Builder.foldlM_add (Builder.add_end ⟨rfl, by cbv, by cbv, by cbv, by cbv⟩ (by cbv) (by cbv)
      rfl rfl),
    Builder.foldlM_add (Builder.add_tag ⟨rfl, by cbv, by cbv, by cbv, by cbv⟩ .definition
      [⟨.blank, " ", ⟨46, 47⟩, 1⟩, ⟨.emptyCall, "h", ⟨47, 50⟩, 1⟩, ⟨.blank, " ", ⟨50, 51⟩, 1⟩]
      (.definition ⟨"h", []⟩) (by cbv) (by cbv) (by decide +kernel) (by cbv)),
    Builder.foldlM_add (Builder.add_output
      [⟨.blank, " ", ⟨55, 56⟩, 1⟩, ⟨.emptyCall, "b", ⟨56, 59⟩, 1⟩, ⟨.blank, " ", ⟨59, 60⟩, 1⟩]
      (.call (.var "b") [] []) rfl (by cbv) (by decide +kernel) (by cbv)),
    Builder.foldlM_add (Builder.add_end ⟨rfl, by cbv, by cbv, by cbv, by cbv⟩ (by cbv) (by cbv)
      rfl rfl),
    Builder.foldlM_add (Builder.add_tag ⟨rfl, by cbv, by cbv, by cbv, by cbv⟩ .definition
      [⟨.blank, " ", ⟨84, 85⟩, 1⟩, ⟨.emptyCall, "b", ⟨85, 88⟩, 1⟩, ⟨.blank, " ", ⟨88, 89⟩, 1⟩]
      (.definition ⟨"b", []⟩) (by cbv) (by cbv) (by decide +kernel) (by cbv)),
    Builder.foldlM_add (Builder.add_text rfl),
    Builder.foldlM_add (Builder.add_end ⟨rfl, by cbv, by cbv, by cbv, by cbv⟩ (by cbv) (by cbv)
      rfl rfl),
    Builder.foldlM_add (Builder.add_tag ⟨rfl, by cbv, by cbv, by cbv, by cbv⟩ .definition
      [⟨.blank, " ", ⟨114, 115⟩, 1⟩, ⟨.call, "c", ⟨115, 117⟩, 1⟩, ⟨.path, "b", ⟨117, 118⟩, 1⟩,
        ⟨.parenClose, ")", ⟨118, 119⟩, 1⟩, ⟨.blank, " ", ⟨119, 120⟩, 1⟩]
      (.definition ⟨"c", [⟨"b", none⟩]⟩) (by cbv) (by cbv) (by decide +kernel) (by cbv)),
    Builder.foldlM_add (Builder.add_output
      [⟨.blank, " ", ⟨124, 125⟩, 1⟩, ⟨.emptyCall, "h", ⟨125, 128⟩, 1⟩,
        ⟨.blank, " ", ⟨128, 129⟩, 1⟩]
      (.call (.var "h") [] []) rfl (by cbv) (by decide +kernel) (by cbv)),
    Builder.foldlM_add (Builder.add_end ⟨rfl, by cbv, by cbv, by cbv, by cbv⟩ (by cbv) (by cbv)
      rfl rfl)]
  rfl

lemma page_read : compiler.nodes ⟨"page", page⟩ = .ok (importing ["a", "c"] 0 28 :: rest) := by
  have hread : Node.ofSource .standard page = .ok (importing ["a", "c"] 0 28 :: rest) := by
    refine Node.ofSource_of [⟨.tag, " from \"lib\" import a, c ".toList, 0, 1⟩,
      ⟨.output, " c() ".toList, 28, 1⟩, ⟨.tag, " macro b() ".toList, 37, 1⟩,
      ⟨.text, "page".toList, 52, 1⟩, ⟨.tag, " endmacro ".toList, 56, 1⟩,
      ⟨.output, " a() ".toList, 70, 1⟩] (by decide +kernel) ?_
    rw [Builder.foldlM_add (Builder.add_tag ⟨rfl, by cbv, by cbv, by cbv, by cbv⟩ .importNames
        [⟨.blank, " ", ⟨7, 8⟩, 1⟩, ⟨.string, "\"lib\"", ⟨8, 13⟩, 1⟩, ⟨.blank, " ", ⟨13, 14⟩, 1⟩,
          ⟨.path, "import", ⟨14, 20⟩, 1⟩, ⟨.blank, " ", ⟨20, 21⟩, 1⟩, ⟨.path, "a", ⟨21, 22⟩, 1⟩,
          ⟨.comma, ",", ⟨22, 23⟩, 1⟩, ⟨.blank, " ", ⟨23, 24⟩, 1⟩, ⟨.path, "c", ⟨24, 25⟩, 1⟩,
          ⟨.blank, " ", ⟨25, 26⟩, 1⟩]
        (.importNames ⟨"lib", ["a", "c"], false⟩) (by cbv) (by cbv) (by decide +kernel) (by cbv)),
      Builder.foldlM_add (Builder.add_output
        [⟨.blank, " ", ⟨30, 31⟩, 1⟩, ⟨.emptyCall, "c", ⟨31, 34⟩, 1⟩, ⟨.blank, " ", ⟨34, 35⟩, 1⟩]
        (.call (.var "c") [] []) rfl (by cbv) (by decide +kernel) (by cbv)),
      Builder.foldlM_add (Builder.add_tag ⟨rfl, by cbv, by cbv, by cbv, by cbv⟩ .definition
        [⟨.blank, " ", ⟨45, 46⟩, 1⟩, ⟨.emptyCall, "b", ⟨46, 49⟩, 1⟩, ⟨.blank, " ", ⟨49, 50⟩, 1⟩]
        (.definition ⟨"b", []⟩) (by cbv) (by cbv) (by decide +kernel) (by cbv)),
      Builder.foldlM_add (Builder.add_text rfl),
      Builder.foldlM_add (Builder.add_end ⟨rfl, by cbv, by cbv, by cbv, by cbv⟩ (by cbv) (by cbv)
        rfl rfl),
      Builder.foldlM_add (Builder.add_output
        [⟨.blank, " ", ⟨72, 73⟩, 1⟩, ⟨.emptyCall, "a", ⟨73, 76⟩, 1⟩, ⟨.blank, " ", ⟨76, 77⟩, 1⟩]
        (.call (.var "a") [] []) rfl (by cbv) (by decide +kernel) (by cbv))]
    rfl
  show (Node.ofSource .standard page).mapError _ = _
  rw [hread]
  rfl

/-- What the definitions compile to. -/
def compiled : List Macro :=
  [⟨"a", [], [.output (.call (.context "h") [] [])], ""⟩,
    ⟨"h", [], [.output (.call (.context "b") [] [])], ""⟩,
    ⟨"b", [], [.text "B"], ""⟩,
    ⟨"c", [⟨"b", none⟩], [.output (.call (.context "h") [] [])], ""⟩]

lemma library_imported : (compiler.scope ⟨"page", page⟩).imported "lib" =
    .ok ("lib", compiled.map (Macro.fragment "lib")) := by
  have hname : Path.join (some "page") "lib" = "lib" := by cbv
  have hload : compiler.load (some "page") "lib" = .ok ⟨"lib", macros⟩ := by
    rw [Compiler.load, hname]
    rfl
  have hread : compiler.nodes ⟨"lib", macros⟩ = .ok definitions := by
    show (Node.ofSource .standard macros).mapError _ = _
    rw [macros_read]
    rfl
  refine Compiler.imported_eq (by decide) hload (show "lib" ≠ "page" by decide) hread fun u hu => ?_
  obtain ⟨tags, file, imported⟩ := u
  obtain rfl : tags = .standard := hu
  rfl

/-- What a tag of the page compiles to. -/
lemma importing_selects {names : List String} (hnames : ∀ n ∈ names, n ∈ compiled.map (·.name))
    (start stop : Nat) :
    let x := Exports.ofFragments "lib" (compiled.map (Macro.fragment "lib"))
    (compiler.scope ⟨"page", page⟩).node [] (importing names start stop) =
      .ok (compiled.map fun m => .define (x.selectedBinding names m.name)
        ((m.writtenIn "lib").replace (x.symbolOf names))) :=
  have hlegible : TagHead.Legible (compiler.scope ⟨"page", page⟩).tags
      ⟨"from", .importNames ⟨"lib", names, false⟩, 1, ⟨start, stop⟩⟩ :=
    ⟨.importNames, rfl, .importNames _⟩
  FileScope.node_importNames hlegible rfl library_imported hnames

end Siblings

open Siblings in
/-- A second tag changes what calls put out if one of the macros has a parameter with the name of a
macro that only this tag imports, or if the page defines a macro of that name: then the macro that
both call by way of a hidden one is no longer found, or is another one. -/
theorem siblings_interfere :
    compiler.nodes ⟨"page", page⟩ = .ok (importing ["a", "c"] 0 28 :: rest) ∧
      (importing ["b"] 28 53).Legible compiler.tags ∧
      compiler.output ⟨"page", page⟩ Greeting.context = .ok "BB" ∧
      compiler.outputOf ⟨"page", page⟩ (importing ["a", "c"] 0 28 :: importing ["b"] 28 53 :: rest)
        Greeting.context = .ok "page" := by
  have hfirst := importing_selects (show ∀ n ∈ ["a", "c"], n ∈ compiled.map (·.name) by decide) 0 28
  have hsecond := importing_selects (show ∀ n ∈ ["b"], n ∈ compiled.map (·.name) by decide) 28 53
  refine ⟨page_read, .tag ⟨.importNames, rfl, .importNames _⟩ (List.forall_mem_nil _), ?_, ?_⟩
  · rw [Compiler.output_eq page_read, Compiler.outputOf_eq, FileScope.nodes, hfirst]
    cbv
  · rw [Compiler.outputOf_eq, FileScope.nodes, hfirst, FileScope.nodes, hsecond]
    cbv

end Stencil
