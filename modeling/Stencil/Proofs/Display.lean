import Stencil.Proofs.Alias
import Stencil.Proofs.Detour.Dependence
import Stencil.Proofs.Detour.Simulation
import Stencil.Proofs.Relinking

/-!
What a namespace shows. A namespace is displayed by running what its file shows, and by then the
file has been imported: its macros are members of the namespace, and all that it imports has been
bound, wherever the tags for that stand. Rendered on its own, the file has its macros in the context
and does one thing after the other.

So the two agree if the file is **steady** (`Fragment.Steady`): nothing that it shows depends on one
of its macros, on the name of the import, or on what it imports further down. Then what is shown can
be followed from one piece to the next. What has been shown so far has **reached** some slots, and
these are alike in both places; all other slots are as the imports have left them, those so far in
the one place and all of them in the other (`Midway`, `Midway.follows`). The main result is
`namespace_displays`. A file that shows what one of its own macros puts out does not display
(`own_macro_unseen`), nor does one that shows what it imports later.
-/

namespace Stencil

/-! ### Files that can be displayed -/

namespace Fragment

/-- What the fragments show depends neither on an entry of the context with one of the names nor on
anything that later fragments import. -/
def Steady (fs : List Fragment) (names : List String) : Prop :=
  ∀ front is back, fs = front ++ .markup is :: back →
    ∀ slot, Code.Depends (imports front) is slot →
      (∀ n ∈ names, slot ≠ .entry n) ∧ allStrokes slot (imports back) = []

lemma imports_append (fs gs : List Fragment) : imports (fs ++ gs) = imports fs ++ imports gs := by
  induction fs with
  | nil => rfl
  | cons f rest ih =>
    cases f with
    | imported is => exact (congrArg (is ++ ·) ih).trans (List.append_assoc ..).symm
    | _ => exact ih

/-- What holds of the code of fragments holds of what they import. -/
lemma forall_imports {P : Instr → Prop} {fs : List Fragment} (h : ∀ f ∈ fs, ∀ i ∈ f.code, P i) :
    ∀ i ∈ imports fs, P i := by
  induction fs with
  | nil => exact nofun
  | cons f rest ih =>
    rw [List.forall_mem_cons] at h
    cases f with
    | imported is => exact List.forall_mem_append.2 ⟨h.1, ih h.2⟩
    | _ => exact ih h.2

end Fragment

section Members

variable {x : Exports} {fs : List Fragment} {handle : String}

/-- A namespace is filled with the macros of the file, and everywhere else there is what the file
imports. -/
lemma Exports.allStrokes_members (hdefines : x.Defines fs) {slot : Slot}
    (hslot : slot ≠ .entry handle) :
    allStrokes slot (x.members handle fs) = allStrokes slot (Fragment.imports fs) := by
  induction fs with
  | nil => rfl
  | cons f rest ih =>
    cases f with
    | markup is => exact ih hdefines.tail
    | imported is =>
      rw [members, Fragment.imports, allStrokes_append, allStrokes_append, ih hdefines.tail]
    | definition name is =>
      obtain ⟨hname, m, hm, rfl⟩ := hdefines name is List.mem_cons_self
      rw [members, intoSpace_define hname hm, Fragment.imports, allStrokes_append,
        allStrokes_define_of_ne (.member handle name) hslot.symm, ih hdefines.tail]
      rfl

end Members

/-- Displaying a namespace is an invocation that runs its markup. -/
lemma exec_display_closed (room : Nat) (handle : String) (markup : List Instr) (s : Renderer) :
    exec (invoke (room + 1)) [] [.output (.context handle)]
        (s.mapContext (·.closeSpace handle markup [])) =
      Run.nested "namespace display" (exec (invoke room) [] markup)
        (s.mapContext (·.closeSpace handle markup [])) := by
  have hget : (s.context.closeSpace handle markup []).get? handle =
      some (.space (s.context.space handle).1 (some (markup, []))) :=
    Context.get?_insert_self ..
  rw [exec_singleton, execInstr, eval]
  show display _ (((s.context.closeSpace handle markup []).get? handle).getD .undefined) _ = _
  rw [hget]
  rfl

/-- Data are the same on both sides of every detour. -/
lemma Detour.rel_start {D : Detour} {data : Json} {context : Context}
    (h : Context.ofJson data = .ok context) (fresh : Nat) (slot : Slot) :
    Option.Rel D.value ((Renderer.start context fresh).slot slot)
      ((Renderer.start context fresh).slot slot) := by
  cases slot with
  | entry name => exact Context.rel_ofJson h name
  | hidden key => exact .none

/-! ### A file in two places -/

/-- Two renderers in which the same part of a file has been shown, `s` where the file is rendered
and has imported what is `done`, and `s'` where it has been imported with `all` its imports. The
slots in `U` have not been reached: they are still as the imports have left them, up to the entries
with the names. -/
structure Midway (names : List String) (U : Slot → Prop) (start : Renderer)
    (done all : List Instr) (s s' : Renderer) : Prop where
  agree : (Detour.around U).Agree 1 s s'
  left : ∀ slot, U slot → (∀ n ∈ names, slot ≠ .entry n) →
    Stroke.Leaves [] (allStrokes slot done) (start.slot slot) (s.slot slot)
  right : ∀ slot, U slot → (∀ n ∈ names, slot ≠ .entry n) →
    Stroke.Leaves [] (allStrokes slot all) (start.slot slot) (s'.slot slot)

namespace Midway

open Detour

variable {names : List String} {U U' : Slot → Prop} {start s s' t t' : Renderer}
  {done all is js : List Instr}

/-- At first, everything has been imported in the one place and nothing in the other. -/
protected lemma start {x : Exports} {fs : List Fragment} {handle : String} {markup : List Instr}
    (hdefines : x.Defines fs)
    (ht : Code.Leaves [] [.bindSpace handle (x.members handle fs) markup] start t) :
    Midway (handle :: names) (fun _ => True) start [] (Fragment.imports fs) start t.deeper := by
  refine ⟨agree_around_iff.2 ⟨fun _ h => (h trivial).elim, congrArg (· + 1) ht.depth⟩,
    fun _ _ _ => .nil _, fun slot _ hslot => ?_⟩
  have hhandle : slot ≠ .entry handle := hslot handle List.mem_cons_self
  have hleaves := ht.slots slot
  rw [allStrokes, Instr.strokes, if_neg hhandle.symm, allStrokes, List.append_nil,
    Exports.allStrokes_members hdefines hhandle] at hleaves
  cases slot <;> exact hleaves

variable (h : Midway names U start done all s s')

include h

/-- Linking code runs where the file is rendered, in slots that have not been reached. -/
lemma link (hnone : ∀ slot, ¬ U slot → allStrokes slot is = [])
    (hother : ∀ slot, (∀ n ∈ names, slot ≠ .entry n) → allStrokes slot is = allStrokes slot js)
    (ht : Code.Leaves [] is s t) : Midway names U start (done ++ js) all t s' := by
  obtain ⟨hslots, hdepth⟩ := agree_around_iff.1 h.agree
  refine ⟨agree_around_iff.2 ⟨fun slot hslot => ?_, hdepth.trans (by rw [ht.depth])⟩,
    fun slot hslot hname => ?_, h.right⟩
  · have hleaves := ht.slots slot
    rw [hnone slot hslot] at hleaves
    generalize t.slot slot = o at hleaves ⊢
    cases hleaves
    exact hslots slot hslot
  · rw [allStrokes_append, ← hother slot hname]
    exact (h.left slot hslot hname).append (ht.slots slot)

/-- More slots are reached, in which everything has been imported. -/
lemma reach (hU : ∀ slot, U' slot → U slot)
    (hstart : ∀ slot, Option.Rel (around U').value (start.slot slot) (start.slot slot))
    (hreached : ∀ slot, U slot → ¬ U' slot → (∀ n ∈ names, slot ≠ .entry n) ∧
      allStrokes slot all = allStrokes slot done ∧
      ∀ k ∈ allStrokes slot done, (around U').Strokes k k) :
    Midway names U' start done all s s' := by
  obtain ⟨hslots, hdepth⟩ := agree_around_iff.1 h.agree
  refine ⟨agree_around_iff.2 ⟨fun slot hslot => ?_, hdepth⟩,
    fun slot hslot => h.left slot (hU slot hslot), fun slot hslot => h.right slot (hU slot hslot)⟩
  by_cases hold : U slot
  · obtain ⟨hname, hall, hstrokes⟩ := hreached slot hold hslot
    have hright := h.right slot hold hname
    rw [hall] at hright
    exact leaves_congr (h.left slot hold hname) hright (List.forall₂_same.2 hstrokes) .nil
      (.inl (hstart slot))
  · exact contents_mono (around_le hU) (hslots slot hold)

/-- Code that avoids the slots leaves them as they are. -/
lemma after (ht : (around U).After 1 s s' t t') : Midway names U start done all t t' where
  agree := ht.agree
  left slot hslot hname := by
    rw [ht.left.slot_eq (avoidsSlot_around.2 hslot)]
    exact h.left slot hslot hname
  right slot hslot hname := by
    rw [ht.right.slot_eq (avoidsSlot_around.2 hslot)]
    exact h.right slot hslot hname

end Midway

section File

open Detour

variable {x : Exports} {names : List String} {fs : List Fragment} {file : String}
  {start s s' : Renderer}
  (hlinks : ∀ f ∈ fs, f.Links) (hscoped : ∀ f ∈ fs, ∀ i ∈ f.code, i.Scoped file [])
  (hdefines : x.Defines fs) (hnames : ∀ n ∈ x.names, n ∈ names)
  (hsteady : Fragment.Steady fs names)
  (hstart : ∀ U slot, Option.Rel (around U).value (start.slot slot) (start.slot slot))

include hlinks hscoped hdefines hnames hsteady hstart

/-- **What the namespace shows follows what the file shows**, one invocation deeper. -/
lemma Midway.follows {front rest : List Fragment} (hfs : fs = front ++ rest) {U : Slot → Prop}
    (h : Midway names U start (Fragment.imports front) (Fragment.imports fs) s s')
    (huntouched : ∀ slot, ¬ U slot → allStrokes slot (Fragment.imports rest) = [])
    (hown : ∀ n ∈ names, U (.entry n)) (room : Nat) :
    Run.Follows 1 (fun _ _ => True) Eq
      (exec (invoke (room + 1)) [] (rest.flatMap Fragment.code) s)
      (exec (invoke room) [] (Fragment.markups rest) s') := by
  induction rest generalizing front U s s' with
  | nil => exact .ok rfl trivial
  | cons f rest ih =>
    have hf : f ∈ fs := hfs ▸ List.mem_append_right front List.mem_cons_self
    have hfs' : fs = (front ++ [f]) ++ rest := by rw [hfs, List.append_assoc]; rfl
    rw [List.flatMap_cons]
    cases f with
    | imported is =>
      obtain ⟨t, hexec, ht⟩ := exec_leaves (hlinks _ hf) [] s
      have hnone (slot : Slot) (hslot : ¬ U slot) :
          allStrokes slot is = [] ∧ allStrokes slot (Fragment.imports rest) = [] := by
        have hboth := huntouched slot hslot
        rwa [Fragment.imports, allStrokes_append, List.append_eq_nil_iff] at hboth
      have hdone : Fragment.imports (front ++ [.imported is]) = Fragment.imports front ++ is := by
        rw [Fragment.imports_append, Fragment.imports, Fragment.imports, List.append_nil]
      show Run.Follows 1 _ Eq (exec _ [] (is ++ rest.flatMap Fragment.code) s) _
      rw [exec_append_of_silent (hexec _)]
      refine ih hfs' ?_ (fun slot hslot => (hnone slot hslot).2) hown
      rw [hdone]
      exact h.link (fun slot hslot => (hnone slot hslot).1) (fun _ _ => rfl) ht
    | definition name is =>
      obtain ⟨hname, m, hm, rfl⟩ := hdefines name is hf
      obtain ⟨t, hexec, ht⟩ := exec_leaves (hlinks _ hf) [] s
      have hnone (slot : Slot) (hslot : slot ≠ .entry name) :
          allStrokes slot [.define (.context name) m] = [] :=
        allStrokes_define_of_ne (.context name) hslot.symm m
      have hentry : name ∈ names := hnames name (List.contains_iff_mem.1 hname)
      have hdone : Fragment.imports (front ++ [.definition name [.define (.context name) m]]) =
          Fragment.imports front ++ [] := by
        rw [Fragment.imports_append]
        rfl
      show Run.Follows 1 _ Eq
        (exec _ [] ([.define (.context name) m] ++ rest.flatMap Fragment.code) s) _
      rw [exec_append_of_silent (hexec _)]
      refine ih hfs' ?_ huntouched hown
      rw [hdone]
      refine h.link (fun slot hslot => hnone slot ?_) (fun slot hslot => hnone slot ?_) ht
      · rintro rfl
        exact hslot (hown name hentry)
      · exact hslot name hentry
    | markup is =>
      -- what this depends on is reached now, and what it uses beyond that has been reached before
      let U' (slot : Slot) : Prop := U slot ∧ ¬ Code.Depends (Fragment.imports front) is slot
      have hdone : Fragment.imports (front ++ [.markup is]) = Fragment.imports front :=
        (Fragment.imports_append _ _).trans (List.append_nil _)
      have hdepends {slot : Slot} (hslot : Code.Depends (Fragment.imports front) is slot) :=
        hsteady front is rest hfs slot hslot
      have hreached :
          Midway names U' start (Fragment.imports front) (Fragment.imports fs) s s' := by
        refine h.reach (fun _ hU => hU.1) (hstart U') fun slot hU hU' => ?_
        have hslot : Code.Depends (Fragment.imports front) is slot :=
          Classical.byContradiction fun hnot => hU' ⟨hU, hnot⟩
        refine ⟨(hdepends hslot).1, ?_, ?_⟩
        · rw [hfs, Fragment.imports_append, allStrokes_append]
          exact (congrArg _ (hdepends hslot).2).trans (List.append_nil _)
        · have himports : ∀ i ∈ Fragment.imports front, i.Scoped file [] :=
            Fragment.forall_imports fun f hf => hscoped f (hfs ▸ List.mem_append_left _ hf)
          exact strokes_around hU' himports fun k hk _ huses hU' => hU'.2 (hslot.filled hk huses)
      have hcode : (around U').Code is is :=
        code_around (hscoped _ hf) fun _ huses hU' => hU'.2 (.uses huses)
      have hD := around_lawful U'
      rw [Fragment.markups, Fragment.code, exec_append, exec_append]
      refine (hD.exec_sim (hD.invoke_sim room) hcode .nil s s' hreached.agree).bind
        (fun _ _ _ => trivial) fun out out' t t' hout ht => ?_
      have hnext := hreached.after ht
      rw [← hdone] at hnext
      refine (ih hfs' hnext (fun slot hslot => ?_) fun n hn => ⟨hown n hn, fun hslot => ?_⟩).bind
        (fun _ _ _ => trivial) fun more more' u u' hmore _ => ?_
      · by_cases hU : U slot
        · exact (hdepends (Classical.byContradiction fun hnot => hslot ⟨hU, hnot⟩)).2
        · exact huntouched slot hU
      · exact (hdepends hslot).1 n hn rfl
      · exact .ok (by rw [hout, hmore]) trivial

end File

section Files

variable {c : Compiler} {page file : SourceFile} {path : String} {fs : List Fragment}

/-- What a page puts out is the outcome of its program. -/
lemma Compiler.output_of_compile {p : Program} (h : c.compile page = .ok p) (context : Context) :
    c.output page context =
      ((Renderer.render p).outcome (.start context 0)).mapError .render := by
  rw [output, h]
  exact Cli.renderWith_eq context p

lemma Compiler.outcome_of_output {p : Program} (h : c.compile page = .ok p) {context : Context}
    {out : String} (hout : c.output page context = .ok out) :
    (Renderer.render p).outcome (.start context 0) = .ok out := by
  rw [output_of_compile h] at hout
  cases hr : (Renderer.render p).outcome (.start context 0) with
  | ok a =>
    rw [hr] at hout
    cases hout
    rfl
  | error e =>
    rw [hr] at hout
    cases hout

end Files

/-- **A namespace displays its file.** -/
theorem namespace_displays {c : Compiler} {page file : SourceFile} {head : TagHead}
    {content : List Node} {path handle : String} {withContext : Bool}
    (hargs : head.args = .importAll ⟨path, handle, withContext⟩)
    (hpage : c.Shows page [.tag head content] (.var handle)) {fs : List Fragment}
    (hload : c.load (some page.name) path = .ok file)
    (himported : (c.scope page).imported path = .ok (file.name, fs))
    (hsteady : Fragment.Steady fs (handle :: (Exports.ofFragments file.name fs).names))
    {data : Json} {context : Context} (hdata : Context.ofJson data = .ok context) {out : String}
    (hout : c.output file context = .ok out) :
    c.output page context = .ok out ∨
      ∃ what, c.output page context = .error (.render (.callDepth what)) := by
  let x := Exports.ofFragments file.name fs
  let start : Renderer := .start context 0
  obtain ⟨_, hcompile, _⟩ := Compiler.compile_of_imported hload himported
  have hnode : (c.scope page).node [] (.tag head content) = _ := FileScope.node_importAll_of
    (legible_head (hpage.legible _ List.mem_cons_self)) hargs himported
  have hcompile' := hpage.compile (FileScope.nodes_singleton hnode)
  have hlinks := Compiler.links_of_fragments himported
  have hdefines := Compiler.defines_of_imported himported
  -- the page fills the namespace and imports everything else
  obtain ⟨t, hexec, ht⟩ := exec_leaves (x.links_members hlinks handle) []
    (start.mapContext (·.openSpace handle))
  have hmidway : Midway (handle :: x.names) _ start [] (Fragment.imports fs) start _ :=
    .start hdefines (Code.leaves_bindSpace (Fragment.markups fs) ht)
  -- then it shows what the file shows, one invocation deeper
  obtain ⟨room, hroom⟩ : ∃ room, maxCallDepth = room + 1 := ⟨_, rfl⟩
  have hshown := hmidway.follows hlinks (Compiler.scoped_of_imported himported) hdefines
    (fun n hn => List.mem_cons_of_mem handle hn) hsteady
    (fun _ _ => Detour.rel_start hdata 0 _) (List.nil_append fs).symm
    (fun _ h => (h trivial).elim) (fun _ _ => trivial) room
  have hfollows : Run.Follows 1 (fun _ _ => True) Eq
      (exec (invoke maxCallDepth) [] (fs.flatMap Fragment.code) start)
      (exec (invoke maxCallDepth) [] [.bindSpace handle (x.members handle fs)
        (Fragment.markups fs), .output (.context handle)] start) := by
    rw [hroom, Relocation.exec_bindSpace (hexec _), exec_display_closed]
    exact hshown.nested_right Nat.one_pos fun _ _ _ => trivial
  rw [Compiler.output_of_compile hcompile']
  obtain h | ⟨what, h⟩ := hfollows.outcome_of_ok (Compiler.outcome_of_output hcompile hout)
  · exact .inl (congrArg (Except.mapError Error.render) h)
  · exact .inr ⟨what, congrArg (Except.mapError Error.render) h⟩

namespace Exhibits

/-- A page that imports a file and shows it: `{% import "file" as w %}{{ w }}`. -/
def page : String :=
  "\x7b% import \"file\" as w %\x7d\x7b\x7b w \x7d\x7d"

/-- A file that shows a name, imports a macro, defines another one and shows what the first puts
out: `{{ name }}: {% from "lib" import b %}{% macro m() %}M{% endmacro %}{{ b(name) }}`. -/
def card : String :=
  "\x7b\x7b name \x7d\x7d: \x7b% from \"lib\" import b %\x7d" ++
    "\x7b% macro m() %\x7dM\x7b% endmacro %\x7d\x7b\x7b b(name) \x7d\x7d"

/-- A file that shows what its own macro puts out: `{% macro m() %}M{% endmacro %}{{ m() }}`. -/
def solo : String :=
  "\x7b% macro m() %\x7dM\x7b% endmacro %\x7d\x7b\x7b m() \x7d\x7d"

/-- A file that imports a macro after what it shows: `{{ b(name) }}{% from "lib" import b %}`. -/
def late : String :=
  "\x7b\x7b b(name) \x7d\x7d\x7b% from \"lib\" import b %\x7d"

/-- A file with a text can be imported, and so can the file of macros. -/
def compiler (text : String) : Compiler where
  tags := .standard
  library.text? name :=
    if name = "lib" then some Greeting.macros else if name = "file" then some text else none
  library.location? _ := none
  maxDepth := 3

/-- The node of the tag that imports the file. -/
def importing : Node :=
  .tag ⟨"import", .importAll ⟨"file", "w", false⟩, 1, ⟨0, 24⟩⟩ []

/-- The nodes of the tag that imports a macro, of a definition and of an output. -/
def picking (start stop : Nat) : Node :=
  .tag ⟨"from", .importNames ⟨"lib", ["b"], false⟩, 1, ⟨start, stop⟩⟩ []

def defining (start stop : Nat) : Node :=
  .tag ⟨"macro", .definition ⟨"m", []⟩, 1, ⟨start, stop⟩⟩ [.text "M"]

lemma page_shows (text : String) :
    (compiler text).Shows ⟨"page", page⟩ [importing] (.var "w") := by
  have hread : Node.ofSource .standard page =
      .ok [importing, .output ⟨.var "w", "w", 1, ⟨24, 31⟩⟩] := by
    refine Node.ofSource_of [⟨.tag, " import \"file\" as w ".toList, 0, 1⟩,
      ⟨.output, " w ".toList, 24, 1⟩] (by decide +kernel) ?_
    rw [Builder.foldlM_add (Builder.add_tag ⟨rfl, by cbv, by cbv, by cbv, by cbv⟩ .importAll
        [⟨.blank, " ", ⟨9, 10⟩, 1⟩, ⟨.string, "\"file\"", ⟨10, 16⟩, 1⟩,
          ⟨.blank, " ", ⟨16, 17⟩, 1⟩, ⟨.path, "as", ⟨17, 19⟩, 1⟩, ⟨.blank, " ", ⟨19, 20⟩, 1⟩,
          ⟨.path, "w", ⟨20, 21⟩, 1⟩, ⟨.blank, " ", ⟨21, 22⟩, 1⟩]
        (.importAll ⟨"file", "w", false⟩) (by cbv) (by cbv) (by decide +kernel) (by cbv)),
      Builder.foldlM_add (Builder.add_output
        [⟨.blank, " ", ⟨26, 27⟩, 1⟩, ⟨.path, "w", ⟨27, 28⟩, 1⟩, ⟨.blank, " ", ⟨28, 29⟩, 1⟩]
        (.var "w") rfl (by cbv) (by decide +kernel) (by cbv))]
    rfl
  refine ⟨⟨.var "w", "w", 1, ⟨24, 31⟩⟩, ?_, rfl⟩
  show (Node.ofSource .standard page).mapError _ = _
  rw [hread]
  rfl

/-- The node of the output of the name. -/
def naming : Node :=
  .output ⟨.var "name", "name", 1, ⟨0, 10⟩⟩

lemma card_read : (compiler card).nodes ⟨"file", card⟩ = .ok [naming, .text ": ", picking 12 37,
    defining 37 67, Greeting.call (.var "b") "b(name)" 67 80] := by
  have hread : Node.ofSource .standard card = .ok [naming, .text ": ", picking 12 37,
      defining 37 67, Greeting.call (.var "b") "b(name)" 67 80] := by
    refine Node.ofSource_of [⟨.output, " name ".toList, 0, 1⟩, ⟨.text, ": ".toList, 10, 1⟩,
      ⟨.tag, " from \"lib\" import b ".toList, 12, 1⟩, ⟨.tag, " macro m() ".toList, 37, 1⟩,
      ⟨.text, "M".toList, 52, 1⟩, ⟨.tag, " endmacro ".toList, 53, 1⟩,
      ⟨.output, " b(name) ".toList, 67, 1⟩] (by decide +kernel) ?_
    rw [Builder.foldlM_add (Builder.add_output
        [⟨.blank, " ", ⟨2, 3⟩, 1⟩, ⟨.path, "name", ⟨3, 7⟩, 1⟩, ⟨.blank, " ", ⟨7, 8⟩, 1⟩]
        (.var "name") rfl (by cbv) (by decide +kernel) (by cbv)),
      Builder.foldlM_add (Builder.add_text rfl),
      Builder.foldlM_add (Builder.add_tag ⟨rfl, by cbv, by cbv, by cbv, by cbv⟩ .importNames
        [⟨.blank, " ", ⟨19, 20⟩, 1⟩, ⟨.string, "\"lib\"", ⟨20, 25⟩, 1⟩,
          ⟨.blank, " ", ⟨25, 26⟩, 1⟩, ⟨.path, "import", ⟨26, 32⟩, 1⟩, ⟨.blank, " ", ⟨32, 33⟩, 1⟩,
          ⟨.path, "b", ⟨33, 34⟩, 1⟩, ⟨.blank, " ", ⟨34, 35⟩, 1⟩]
        (.importNames ⟨"lib", ["b"], false⟩) (by cbv) (by cbv) (by decide +kernel) (by cbv)),
      Builder.foldlM_add (Builder.add_tag ⟨rfl, by cbv, by cbv, by cbv, by cbv⟩ .definition
        [⟨.blank, " ", ⟨45, 46⟩, 1⟩, ⟨.emptyCall, "m", ⟨46, 49⟩, 1⟩, ⟨.blank, " ", ⟨49, 50⟩, 1⟩]
        (.definition ⟨"m", []⟩) (by cbv) (by cbv) (by decide +kernel) (by cbv)),
      Builder.foldlM_add (Builder.add_text rfl),
      Builder.foldlM_add (Builder.add_end ⟨rfl, by cbv, by cbv, by cbv, by cbv⟩ (by cbv) (by cbv)
        rfl rfl),
      Builder.foldlM_add (Builder.add_output
        [⟨.blank, " ", ⟨69, 70⟩, 1⟩, ⟨.call, "b", ⟨70, 72⟩, 1⟩, ⟨.path, "name", ⟨72, 76⟩, 1⟩,
          ⟨.parenClose, ")", ⟨76, 77⟩, 1⟩, ⟨.blank, " ", ⟨77, 78⟩, 1⟩]
        (.call (.var "b") [.var "name"] []) rfl (by cbv) (by decide +kernel) (by cbv))]
    rfl
  show (Node.ofSource .standard card).mapError _ = _
  rw [hread]
  rfl

lemma solo_read : (compiler solo).nodes ⟨"file", solo⟩ =
    .ok [defining 0 30, .output ⟨.call (.var "m") [] [], "m()", 1, ⟨30, 39⟩⟩] := by
  have hread : Node.ofSource .standard solo =
      .ok [defining 0 30, .output ⟨.call (.var "m") [] [], "m()", 1, ⟨30, 39⟩⟩] := by
    refine Node.ofSource_of [⟨.tag, " macro m() ".toList, 0, 1⟩, ⟨.text, "M".toList, 15, 1⟩,
      ⟨.tag, " endmacro ".toList, 16, 1⟩, ⟨.output, " m() ".toList, 30, 1⟩] (by decide +kernel) ?_
    rw [Builder.foldlM_add (Builder.add_tag ⟨rfl, by cbv, by cbv, by cbv, by cbv⟩ .definition
        [⟨.blank, " ", ⟨8, 9⟩, 1⟩, ⟨.emptyCall, "m", ⟨9, 12⟩, 1⟩, ⟨.blank, " ", ⟨12, 13⟩, 1⟩]
        (.definition ⟨"m", []⟩) (by cbv) (by cbv) (by decide +kernel) (by cbv)),
      Builder.foldlM_add (Builder.add_text rfl),
      Builder.foldlM_add (Builder.add_end ⟨rfl, by cbv, by cbv, by cbv, by cbv⟩ (by cbv) (by cbv)
        rfl rfl),
      Builder.foldlM_add (Builder.add_output
        [⟨.blank, " ", ⟨32, 33⟩, 1⟩, ⟨.emptyCall, "m", ⟨33, 36⟩, 1⟩, ⟨.blank, " ", ⟨36, 37⟩, 1⟩]
        (.call (.var "m") [] []) rfl (by cbv) (by decide +kernel) (by cbv))]
    rfl
  show (Node.ofSource .standard solo).mapError _ = _
  rw [hread]
  rfl

lemma late_read : (compiler late).nodes ⟨"file", late⟩ =
    .ok [Greeting.call (.var "b") "b(name)" 0 13, picking 13 38] := by
  have hread : Node.ofSource .standard late =
      .ok [Greeting.call (.var "b") "b(name)" 0 13, picking 13 38] := by
    refine Node.ofSource_of [⟨.output, " b(name) ".toList, 0, 1⟩,
      ⟨.tag, " from \"lib\" import b ".toList, 13, 1⟩] (by decide +kernel) ?_
    rw [Builder.foldlM_add (Builder.add_output
        [⟨.blank, " ", ⟨2, 3⟩, 1⟩, ⟨.call, "b", ⟨3, 5⟩, 1⟩, ⟨.path, "name", ⟨5, 9⟩, 1⟩,
          ⟨.parenClose, ")", ⟨9, 10⟩, 1⟩, ⟨.blank, " ", ⟨10, 11⟩, 1⟩]
        (.call (.var "b") [.var "name"] []) rfl (by cbv) (by decide +kernel) (by cbv)),
      Builder.foldlM_add (Builder.add_tag ⟨rfl, by cbv, by cbv, by cbv, by cbv⟩ .importNames
        [⟨.blank, " ", ⟨20, 21⟩, 1⟩, ⟨.string, "\"lib\"", ⟨21, 26⟩, 1⟩,
          ⟨.blank, " ", ⟨26, 27⟩, 1⟩, ⟨.path, "import", ⟨27, 33⟩, 1⟩, ⟨.blank, " ", ⟨33, 34⟩, 1⟩,
          ⟨.path, "b", ⟨34, 35⟩, 1⟩, ⟨.blank, " ", ⟨35, 36⟩, 1⟩]
        (.importNames ⟨"lib", ["b"], false⟩) (by cbv) (by cbv) (by decide +kernel) (by cbv))]
    rfl
  show (Node.ofSource .standard late).mapError _ = _
  rw [hread]
  rfl

lemma file_loaded (text : String) :
    (compiler text).load (some "page") "file" = .ok ⟨"file", text⟩ := by
  have hname : Path.join (some "page") "file" = "file" := by cbv
  rw [Compiler.load, hname]
  rfl

/-- What the file gets of the macros. -/
lemma library_imported (text : String) :
    (compiler text).fragments 1 ["page", "file"] "lib" =
      .ok ("lib", Greeting.compiled.map (Macro.fragment "lib")) := by
  have hname : Path.join (some "file") "lib" = "lib" := by cbv
  have hload : (compiler text).load ["page", "file"].getLast? "lib" =
      .ok ⟨"lib", Greeting.macros⟩ := by
    rw [Compiler.load, List.getLast?_cons_cons, List.getLast?_singleton, hname]
    rfl
  exact Compiler.fragments_of_load hload (by decide) Greeting.library_read
    (Greeting.fragments_definitions rfl)

/-- What the page gets of the file. -/
lemma file_imported {text : String} {ns : List Node} {fs : List Fragment}
    (hread : (compiler text).nodes ⟨"file", text⟩ = .ok ns)
    (hfs : ∀ u : FileScope, u.tags = .standard → u.file.name = "file" →
      u.imported "lib" = .ok ("lib", Greeting.compiled.map (Macro.fragment "lib")) →
      u.fragments ns = .ok fs) :
    ((compiler text).scope ⟨"page", page⟩).imported "file" = .ok ("file", fs) :=
  show (compiler text).fragments (1 + 1) ["page"] "file" = _ from
    Compiler.fragments_of_load (file_loaded text) (show "file" ∉ ["page"] by decide) hread
    (hfs _ rfl rfl (library_imported text))

/-- The code that imports `b` by name: the other macro goes into the private table. -/
def selected : List Instr :=
  [.define (.context "b") ⟨"b", [⟨"x", none⟩],
      [.text "<", .output (.param "x"), .text ">"], "lib"⟩,
    .define (.hidden ⟨"lib", "hi"⟩) ⟨"hi", [⟨"name", none⟩,
        ⟨"n", some (.call (.context "b") [.param "name"] [])⟩],
      [.text "Hi ", .output (.param "n")], "lib"⟩]

/-- The code for the definition, for the outputs of `b(name)` and `name`, and for the call of `m`.
-/
def defined : Fragment :=
  .definition "m" [.define (.context "m") ⟨"m", [], [.text "M"], "file"⟩]

def called : Fragment :=
  .markup [.output (.call (.context "b") [.context "name"] [])]

def named : Fragment :=
  .markup [.output (.context "name")]

def calledOwn : Fragment :=
  .markup [.output (.call (.context "m") [] [])]

section Fragments

variable {u : FileScope} (hu : u.tags = .standard)

include hu

lemma picking_fragment
    (h : u.imported "lib" = .ok ("lib", Greeting.compiled.map (Macro.fragment "lib")))
    (start stop : Nat) : u.fragment (picking start stop) = .ok (.imported selected) := by
  have hlegible : TagHead.Legible u.tags
      ⟨"from", .importNames ⟨"lib", ["b"], false⟩, 1, ⟨start, stop⟩⟩ := by
    rw [hu]
    exact ⟨.importNames, rfl, .importNames _⟩
  have hnode : u.node [] (picking start stop) = .ok selected :=
    FileScope.node_importNames hlegible rfl h (by decide)
  rw [FileScope.fragment, hnode]
  rfl

lemma defining_fragment (hfile : u.file.name = "file") (start stop : Nat) :
    u.fragment (defining start stop) = .ok defined := by
  obtain ⟨tags, ⟨name, text⟩, imported⟩ := u
  obtain rfl : tags = .standard := hu
  obtain rfl : name = "file" := hfile
  rfl

lemma card_fragments (hfile : u.file.name = "file")
    (h : u.imported "lib" = .ok ("lib", Greeting.compiled.map (Macro.fragment "lib"))) :
    u.fragments [naming, .text ": ", picking 12 37, defining 37 67,
      Greeting.call (.var "b") "b(name)" 67 80] =
      .ok [named, .markup [.text ": "], .imported selected, defined, called] := by
  rw [FileScope.fragments, FileScope.fragments, FileScope.fragments, picking_fragment hu h,
    FileScope.fragments, defining_fragment hu hfile]
  rfl

end Fragments

section Pages

variable {text : String} {fs : List Fragment}
  (himported : ((compiler text).scope ⟨"page", page⟩).imported "file" = .ok ("file", fs))

include himported

lemma file_compiled :
    (compiler text).compile ⟨"file", text⟩ = .ok ⟨"file", fs.flatMap Fragment.code⟩ :=
  (Compiler.compile_of_imported (file_loaded text) himported).2.1

lemma page_compiled : (compiler text).compile ⟨"page", page⟩ = .ok ⟨"page",
    [.bindSpace "w" ((Exports.ofFragments "file" fs).members "w" fs) (Fragment.markups fs),
      .output (.context "w")]⟩ := by
  have hlegible : TagHead.Legible ((compiler text).scope ⟨"page", page⟩).tags
      ⟨"import", .importAll ⟨"file", "w", false⟩, 1, ⟨0, 24⟩⟩ := ⟨.importAll, rfl, .importAll _⟩
  exact (page_shows text).compile
    (FileScope.nodes_singleton (FileScope.node_importAll_of hlegible rfl himported))

end Pages

lemma card_imported : ((compiler card).scope ⟨"page", page⟩).imported "file" =
    .ok ("file", [named, .markup [.text ": "], .imported selected, defined, called]) :=
  file_imported card_read fun _ hu hfile h => card_fragments hu hfile h

lemma solo_imported : ((compiler solo).scope ⟨"page", page⟩).imported "file" =
    .ok ("file", [defined, calledOwn]) :=
  file_imported solo_read fun u hu hfile _ => by
    rw [FileScope.fragments, defining_fragment hu hfile]
    rfl

lemma late_imported : ((compiler late).scope ⟨"page", page⟩).imported "file" =
    .ok ("file", [called, .imported selected]) :=
  file_imported late_read fun u hu _ h => by
    rw [FileScope.fragments, FileScope.fragments, picking_fragment hu h]
    rfl

/-- Before the import of `b` the file depends on `name` only, and after it on `b` and its parameter
as well. -/
lemma card_steady : Fragment.Steady
    [named, .markup [.text ": "], .imported selected, defined, called] ["w", "m"] := by
  intro front is back hfs slot hslot
  obtain _ | ⟨_, _ | ⟨_, _ | ⟨_, _ | ⟨_, _ | ⟨_, front⟩⟩⟩⟩⟩ := front <;> try cases hfs
  · have hmem := hslot.of_closed (· ∈ [.entry "name"]) (by decide) (by decide)
    clear hslot
    revert slot
    decide
  · have hmem := hslot.of_closed (· ∈ []) (by decide) (by decide)
    cases hmem
  · have hmem := hslot.of_closed (· ∈ [.entry "b", .entry "name", .entry "x"]) (by decide)
      (by decide)
    clear hslot
    revert slot
    decide
  · simp at hfs

end Exhibits

open Exhibits in
/-- A page that shows a file in which a name comes before the import of a macro. -/
theorem card_displayed :
    (compiler card).Shows ⟨"page", page⟩ [importing] (.var "w") ∧
      (compiler card).output ⟨"file", card⟩ Greeting.context = .ok "Ada: <Ada>" ∧
      ((compiler card).output ⟨"page", page⟩ Greeting.context = .ok "Ada: <Ada>" ∨
        ∃ what, (compiler card).output ⟨"page", page⟩ Greeting.context =
          .error (.render (.callDepth what))) := by
  have hout : (compiler card).output ⟨"file", card⟩ Greeting.context = .ok "Ada: <Ada>" := by
    rw [Compiler.output_of_compile (file_compiled card_imported)]
    rfl
  exact ⟨page_shows card, hout, namespace_displays rfl (page_shows card) (file_loaded card)
    card_imported card_steady Greeting.data_read hout⟩

open Exhibits in
/-- A file is not displayed if it shows what one of its own macros puts out, or if it calls what it
imports only afterwards: the macro is in the namespace, and the import comes first. -/
theorem own_macro_unseen :
    ((compiler solo).Shows ⟨"page", page⟩ [importing] (.var "w") ∧
      (∃ p, (compiler solo).compile ⟨"file", solo⟩ = .ok p ∧
        ¬ Code.Binds p.instrs "w" ∧ ¬ Code.Reads p.instrs "w") ∧
      (compiler solo).output ⟨"file", solo⟩ Greeting.context = .ok "M" ∧
      (compiler solo).output ⟨"page", page⟩ Greeting.context = .ok "") ∧
    (compiler late).Shows ⟨"page", page⟩ [importing] (.var "w") ∧
      (∃ p, (compiler late).compile ⟨"file", late⟩ = .ok p ∧
        ¬ Code.Binds p.instrs "w" ∧ ¬ Code.Reads p.instrs "w") ∧
      (compiler late).output ⟨"file", late⟩ Greeting.context = .ok "" ∧
      (compiler late).output ⟨"page", page⟩ Greeting.context = .ok "<Ada>" := by
  refine ⟨⟨page_shows solo, ⟨_, file_compiled solo_imported, ?_, ?_⟩, ?_, ?_⟩, page_shows late,
    ⟨_, file_compiled late_imported, ?_, ?_⟩, ?_, ?_⟩
  · decide
  · decide
  · rw [Compiler.output_of_compile (file_compiled solo_imported)]
    rfl
  · rw [Compiler.output_of_compile (page_compiled solo_imported)]
    rfl
  · decide
  · decide
  · rw [Compiler.output_of_compile (file_compiled late_imported)]
    rfl
  · rw [Compiler.output_of_compile (page_compiled late_imported)]
    rfl

end Stencil
