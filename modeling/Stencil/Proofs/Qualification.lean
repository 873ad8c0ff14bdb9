import Mathlib
import Stencil.Proofs.Compiling
import Stencil.Proofs.References

/-!
What importing a file does to the macros of other files in it. A file that imports macros in turn
has **borrowed** macros in its code (`borrowings`). Compiled for an importing page they are those of
the file on its own, except for the **exposed** ones: a macro that stands inside a macro of the
file, brought there by name, is relinked together with the code around it, although what it says
about the names of the file has nothing to do with the file (`importing_relinks_exposed`). A
borrowed macro in a namespace, or at the top level of the file, is left as it is.
-/

namespace Stencil

/-! ### Borrowed macros -/

/-- A macro of another file in the code of a file. -/
structure Borrowed where
  definition : Macro
  /-- Whether it stands inside a macro that the file defines at its top level, and not in a
  namespace there. -/
  exposed : Bool

/-- The macro after references in the code around it have been replaced. -/
def Borrowed.relink (f : Expr → Option Expr) (b : Borrowed) : Borrowed :=
  if b.exposed then { b with definition := b.definition.replace f } else b

mutual

/-- The outermost macros of other files in an instruction. `inside` says whether it stands inside a
macro that the file defines at its top level. -/
def Instr.borrowed (file : String) (inside : Bool) : Instr → List Borrowed
  | .text _ => []
  | .output _ => []
  | .define _ m => m.borrowed file inside
  | .callBlock body _ _ => allBorrowed file inside body
  | .bindSpace _ members markup => allBorrowed file false members ++ allBorrowed file false markup

/-- The macro itself if it is of another file, and else the outermost such macros in its body. -/
def Macro.borrowed (file : String) (inside : Bool) : Macro → List Borrowed
  | ⟨name, params, body, written⟩ =>
    if written = file then allBorrowed file inside body
    else [⟨⟨name, params, body, written⟩, inside⟩]

/-- The outermost macros of other files in instructions. -/
def allBorrowed (file : String) (inside : Bool) : List Instr → List Borrowed
  | [] => []
  | i :: rest => i.borrowed file inside ++ allBorrowed file inside rest

end

/-- Whether the instruction defines a macro of the file. -/
def Instr.definedIn (file : String) : Instr → Bool
  | .define _ m => m.file == file
  | _ => false

/-- The outermost macros of other files in code at the top level of a file. -/
def borrowings (file : String) (is : List Instr) : List Borrowed :=
  is.flatMap fun i => i.borrowed file (i.definedIn file)

section Relink

variable {file : String} {f : Expr → Option Expr}

mutual

/-- Outside of the macros of the file nothing is exposed. -/
lemma Instr.not_exposed : ∀ i : Instr, ∀ b ∈ i.borrowed file false, b.exposed = false
  | .text _ => fun _ hb => nomatch hb
  | .output _ => fun _ hb => nomatch hb
  | .define _ m => m.not_exposed
  | .callBlock body _ _ => allBorrowed_not_exposed body
  | .bindSpace _ members markup => List.forall_mem_append.2
    ⟨allBorrowed_not_exposed members, allBorrowed_not_exposed markup⟩

lemma Macro.not_exposed : ∀ m : Macro, ∀ b ∈ m.borrowed file false, b.exposed = false
  | ⟨_, _, body, _⟩ => by
    rw [Macro.borrowed]
    split
    · exact allBorrowed_not_exposed body
    · exact List.forall_mem_singleton.2 rfl

lemma allBorrowed_not_exposed : ∀ is : List Instr,
    ∀ b ∈ allBorrowed file false is, b.exposed = false
  | [] => fun _ hb => nomatch hb
  | i :: rest => List.forall_mem_append.2 ⟨i.not_exposed, allBorrowed_not_exposed rest⟩

end

/-- What is not exposed is not relinked. -/
lemma map_relink_of_not_exposed {bs : List Borrowed} (h : ∀ b ∈ bs, b.exposed = false) :
    bs.map (·.relink f) = bs := by
  refine (List.map_inj_left.2 fun b hb => ?_).trans (List.map_id bs)
  rw [Borrowed.relink, h b hb]
  rfl

mutual

/-- Replacing references in a macro of the file relinks what is exposed there. -/
lemma Instr.borrowed_replace : ∀ i : Instr,
    (i.replace f).borrowed file true = (i.borrowed file true).map (·.relink f)
  | .text _ => rfl
  | .output _ => rfl
  | .define _ m => m.borrowed_replace
  | .callBlock body _ _ => allBorrowed_replaceAll body
  | .bindSpace _ members markup => by
    rw [Instr.replace, Instr.borrowed, List.map_append,
      map_relink_of_not_exposed (allBorrowed_not_exposed members),
      map_relink_of_not_exposed (allBorrowed_not_exposed markup)]

lemma Macro.borrowed_replace : ∀ m : Macro,
    (m.replace f).borrowed file true = (m.borrowed file true).map (·.relink f)
  | ⟨_, _, body, _⟩ => by
    rw [Macro.replace, Macro.borrowed, Macro.borrowed]
    split
    · exact allBorrowed_replaceAll body
    · rfl

lemma allBorrowed_replaceAll : ∀ is : List Instr,
    allBorrowed file true (replaceAll f is) = (allBorrowed file true is).map (·.relink f)
  | [] => rfl
  | i :: rest => by
    rw [replaceAll, allBorrowed, allBorrowed, List.map_append, i.borrowed_replace,
      allBorrowed_replaceAll rest]

end

lemma borrowings_append (is js : List Instr) :
    borrowings file (is ++ js) = borrowings file is ++ borrowings file js :=
  List.flatMap_append

/-- Code that defines no macro of the file exposes nothing. -/
lemma borrowings_not_exposed {is : List Instr} (h : ∀ i ∈ is, i.definedIn file = false) :
    ∀ b ∈ borrowings file is, b.exposed = false := by
  refine List.forall_mem_flatMap.2 fun i hi => ?_
  rw [h i hi]
  exact i.not_exposed

/-- Relinking changes exactly the exposed macros that mention what is replaced. -/
lemma Borrowed.relink_eq_self_iff (hf : Expr.Changes f) (b : Borrowed) :
    b.relink f = b ↔ (b.exposed = true → ∀ r ∈ b.definition.references, f r = none) := by
  obtain ⟨m, exposed⟩ := b
  cases exposed with
  | false => simp [relink]
  | true => simp [relink, m.replace_eq_self_iff hf]

end Relink

/-! ### Fragments -/

/-- The fragment is one of a file: the macros among them are those of the file, and anything else
defines none of its macros. -/
def Fragment.Own (file : String) : Fragment → Prop
  | .definition name is => ∃ m : Macro, is = [.define (.context name) m] ∧ m.file = file
  | .imported is => ∀ i ∈ is, i.definedIn file = false
  | .markup is => ∀ i ∈ is, i.definedIn file = false

section Own

variable {file : String} {fragments : List Fragment} {x : Exports} {f : Expr → Option Expr}
  {target : String → Binding}

/-- Linking a macro of the file relinks what is exposed in it. -/
lemma borrowings_link {name : String} {m : Macro} (hm : m.file = file) :
    borrowings file (replaceAll f ([.define (.context name) m].map (x.rebind target))) =
      (borrowings file [.define (.context name) m]).map (·.relink f) := by
  have hinside {place place' : Binding} :
      borrowings file (replaceAll f [.define place m]) =
        (borrowings file [.define place' m]).map (·.relink f) := by
    obtain ⟨name, params, body, written⟩ := m
    obtain rfl : written = file := hm
    simp only [borrowings, replaceAll, Instr.replace, Macro.replace, Instr.definedIn,
      beq_self_eq_true, List.flatMap_singleton, Instr.borrowed, Macro.borrowed, if_true,
      allBorrowed_replaceAll]
  rw [List.map_singleton, Exports.rebind]
  split
  · exact hinside
  · exact hinside

/-- What the fragments bind and show has the borrowed macros of the file, those exposed relinked. -/
lemma borrowings_bound_perm (h : ∀ fragment ∈ fragments, fragment.Own file) :
    (borrowings file (fragments.flatMap (Fragment.bound fun is =>
      replaceAll f (is.map (x.rebind target))) ++ Fragment.markups fragments)).Perm
      ((borrowings file (fragments.flatMap Fragment.code)).map (·.relink f)) := by
  induction fragments with
  | nil => exact .nil
  | cons fragment rest ih =>
    rw [List.forall_mem_cons] at h
    have hrest := ih h.2
    rw [borrowings_append] at hrest
    simp only [List.flatMap_cons, borrowings_append, List.map_append]
    cases fragment with
    | imported is =>
      rw [Fragment.code, map_relink_of_not_exposed (borrowings_not_exposed h.1), List.append_assoc]
      exact hrest.append_left _
    | markup is =>
      rw [Fragment.code, map_relink_of_not_exposed (borrowings_not_exposed h.1), Fragment.markups,
        borrowings_append, ← List.append_assoc]
      refine (List.perm_append_comm.append_right _).trans ?_
      rw [Fragment.bound, List.append_assoc]
      exact hrest.append_left _
    | definition name is =>
      obtain ⟨m, rfl, hm⟩ := h.1
      rw [Fragment.code, Fragment.bound, borrowings_link hm, List.append_assoc]
      exact hrest.append_left _

/-- All that is exposed in the file is in what the fragments bind. -/
lemma exposed_bound_perm (h : ∀ fragment ∈ fragments, fragment.Own file) :
    ((borrowings file (fragments.flatMap (Fragment.bound fun is =>
      replaceAll f (is.map (x.rebind target))))).filter (·.exposed)).Perm
      (((borrowings file (fragments.flatMap Fragment.code)).map (·.relink f)).filter
        (·.exposed)) := by
  have hmarkups : (borrowings file (Fragment.markups fragments)).filter (·.exposed) = [] := by
    refine List.filter_eq_nil_iff.2 fun b hb => ?_
    rw [borrowings_not_exposed (forall_markups fun is hmem => h (.markup is) hmem) b hb]
    exact Bool.false_ne_true
  have hperm := (@borrowings_bound_perm file fragments x f target h).filter (·.exposed)
  rwa [borrowings_append, List.filter_append, hmarkups, List.append_nil] at hperm

end Own

/-! ### Files -/

section Files

variable {u : FileScope} {file : String}

lemma Instr.definedIn_replace (f : Expr → Option Expr) (i : Instr) :
    (i.replace f).definedIn file = i.definedIn file := by
  cases i with
  | define target m =>
    obtain ⟨name, params, body, written⟩ := m
    rfl
  | _ => rfl

lemma Instr.definedIn_rebind (x : Exports) (target : String → Binding) (i : Instr) :
    (x.rebind target i).definedIn file = i.definedIn file := by
  cases i with
  | define place m =>
    cases place with
    | context name =>
      rw [Exports.rebind]
      split <;> rfl
    | _ => rfl
  | _ => rfl

/-- Macros that are imported by name are of other files. -/
lemma Exports.definedIn_pick {x : Exports} {selected : List String} {fragments : List Fragment}
    (h : ∀ i ∈ fragments.flatMap Fragment.code, i.definedIn file = false) :
    ∀ i ∈ x.pick selected fragments, i.definedIn file = false := by
  rw [pick_eq_flatMap]
  exact forall_bound (List.forall_mem_flatMap.1 h) fun hi =>
    (Instr.definedIn_replace _ _).trans ((Instr.definedIn_rebind x _ _).trans hi)

/-- The macros of a file are the only ones at its top level that it does not import. -/
lemma FileScope.Compiles.definedIn (hfile : u.file.name ≠ file)
    (himported : ∀ path name fs, u.imported path = .ok (name, fs) →
      ∀ i ∈ fs.flatMap Fragment.code, i.definedIn file = false) {params : List String}
    {ns : List Node} {is : List Instr} (h : u.Compiles params ns is) :
    ∀ i ∈ is, i.definedIn file = false := by
  induction h with
  | nil => exact fun _ hi => nomatch hi
  | text s _ ih => exact List.forall_mem_cons.2 ⟨rfl, ih⟩
  | output _ _ ih => exact List.forall_mem_cons.2 ⟨rfl, ih⟩
  | definition _ _ _ _ _ _ ih => exact List.forall_mem_cons.2 ⟨beq_false_of_ne hfile, ih⟩
  | callBlock _ _ _ _ _ _ ih => exact List.forall_mem_cons.2 ⟨rfl, ih⟩
  | importAll _ _ _ _ ih => exact List.forall_mem_cons.2 ⟨rfl, ih⟩
  | importNames _ _ hload _ _ ih =>
    exact List.forall_mem_append.2 ⟨Exports.definedIn_pick (himported _ _ _ hload), ih⟩

/-- A file that is imported defines no macro of a file on the chain. -/
lemma Compiler.definedIn_of_fragments {c : Compiler} {room : Nat} {chain : List String}
    {path name : String} {fs : List Fragment} (h : c.fragments room chain path = .ok (name, fs)) :
    ∀ file ∈ chain, ∀ i ∈ fs.flatMap Fragment.code, i.definedIn file = false :=
  fragments_induction (P := fun chain _ is => ∀ file ∈ chain, ∀ i ∈ is, i.definedIn file = false)
    (fun hnot himported hcompiles file hfile => hcompiles.definedIn
      (fun heq => hnot (heq ▸ hfile))
      fun path name fs hload => himported path name fs hload file (List.mem_append_left _ hfile))
    room chain path name fs h

/-- The fragments of a file are its own if what it imports defines none of its macros. -/
lemma FileScope.own_of_fragment (himported : ∀ path name fs, u.imported path = .ok (name, fs) →
      ∀ i ∈ fs.flatMap Fragment.code, i.definedIn u.file.name = false) {n : Node} {f : Fragment}
    (hf : u.fragment n = .ok f) : f.Own u.file.name := by
  rw [fragment] at hf
  obtain ⟨is, his, hf⟩ := ok_of_bind hf
  cases hf
  cases n with
  | text s =>
    cases his
    exact List.forall_mem_singleton.2 rfl
  | output o =>
    cases his
    exact List.forall_mem_singleton.2 rfl
  | tag head content =>
    rw [node] at his
    -- the kind of tag and its arguments go together, or the node does not compile
    cases hargs : head.args with
    | definition sig =>
      simp only [hargs] at his ⊢
      split at his <;> try cases his
      obtain ⟨body, _, his⟩ := ok_of_bind his
      cases his
      exact ⟨_, rfl, rfl⟩
    | callBlock e source =>
      simp only [hargs] at his ⊢
      split at his <;> try cases his
      obtain ⟨body, _, his⟩ := ok_of_bind his
      cases his
      exact List.forall_mem_singleton.2 rfl
    | importAll h =>
      simp only [hargs] at his ⊢
      split at his <;> try cases his
      obtain ⟨name, fs, _, rfl⟩ := importAll_eq his
      exact List.forall_mem_singleton.2 rfl
    | importNames h =>
      simp only [hargs] at his ⊢
      split at his <;> try cases his
      obtain ⟨name, fs, hload, _, rfl⟩ := importNames_eq his
      exact Exports.definedIn_pick (himported _ _ _ hload)

lemma FileScope.own_of_fragments (himported : ∀ path name fs, u.imported path = .ok (name, fs) →
      ∀ i ∈ fs.flatMap Fragment.code, i.definedIn u.file.name = false) {ns : List Node}
    {fs : List Fragment} (hf : u.fragments ns = .ok fs) : ∀ f ∈ fs, f.Own u.file.name := by
  induction ns generalizing fs with
  | nil =>
    cases hf
    exact fun _ hmem => nomatch hmem
  | cons n rest ih =>
    rw [fragments] at hf
    obtain ⟨f, hfirst, hf⟩ := ok_of_bind hf
    obtain ⟨more, hmore, hf⟩ := ok_of_bind hf
    cases hf
    exact List.forall_mem_cons.2 ⟨own_of_fragment himported hfirst, ih hmore⟩

end Files

/-! ### Importing files -/

/-- The exports are the macros that code of the file defines at its top level. -/
def Exports.Lists (x : Exports) (file : String) (is : List Instr) : Prop :=
  x.file = file ∧
    ∀ name, x.has name = true ↔ ∃ m : Macro, .define (.context name) m ∈ is ∧ m.file = file

lemma Exports.lists_ofFragments {file : String} {fs : List Fragment} (h : ∀ f ∈ fs, f.Own file) :
    (ofFragments file fs).Lists file (fs.flatMap Fragment.code) := by
  refine ⟨rfl, fun name => ?_⟩
  rw [has_ofFragments]
  constructor
  · rintro ⟨is, hmem⟩
    obtain ⟨m, rfl, hm⟩ := h _ hmem
    exact ⟨m, List.mem_flatMap.2 ⟨_, hmem, List.mem_singleton.2 rfl⟩, hm⟩
  · rintro ⟨m, hmem, hm⟩
    obtain ⟨f, hf, hmem⟩ := List.mem_flatMap.1 hmem
    have hdefined : (Instr.define (.context name) m).definedIn file = true := beq_iff_eq.2 hm
    have hown := h f hf
    cases f with
    | definition n is =>
      obtain ⟨m', rfl, _⟩ := hown
      cases List.mem_singleton.1 hmem
      exact ⟨_, hf⟩
    | imported is =>
      rw [hown _ hmem] at hdefined
      cases hdefined
    | markup is =>
      rw [hown _ hmem] at hdefined
      cases hdefined

/-- What a page imports is a file that compiles on its own as well, to the same code. -/
lemma Compiler.compile_of_imported {c : Compiler} {page file : SourceFile} {path name : String}
    {fs : List Fragment} (hload : c.load (some page.name) path = .ok file)
    (h : (c.scope page).imported path = .ok (name, fs)) :
    name = file.name ∧ c.compile file = .ok ⟨file.name, fs.flatMap Fragment.code⟩ ∧
      ∀ f ∈ fs, f.Own file.name := by
  obtain ⟨room, file', ns, hroom, hload', rfl, _, hns, hfs⟩ := load_of_fragments h
  obtain rfl : file' = file := Except.ok.inj (hload'.symm.trans hload)
  let u : FileScope := ⟨c.tags, file', c.fragments room ([page.name] ++ [file'.name])⟩
  have hcompiles : u.Compiles [] ns (fs.flatMap Fragment.code) :=
    FileScope.compiles_of_nodes (legible_of_nodes hns) (FileScope.nodes_of_fragments hfs)
  have hmore (path : String) (r : String × List Fragment) (hr : u.imported path = .ok r) :
      (c.scope file').imported path = .ok r :=
    fragments_mono hr (by omega) rfl fun n hn => List.mem_append_right _ hn
  have halone : (c.scope file').Compiles [] ns (fs.flatMap Fragment.code) :=
    FileScope.Compiles.mono (u := u) rfl rfl hmore hcompiles
  refine ⟨rfl, compile_of_nodes hns (FileScope.nodes_of_compiles halone),
    FileScope.own_of_fragments (u := u) (fun path name fs hpath => ?_) hfs⟩
  exact definedIn_of_fragments hpath _ (List.mem_append_right _ List.mem_cons_self)

lemma Exports.changes_memberOf (x : Exports) (handle : String) :
    Expr.Changes (x.memberOf handle) where
  relinked {e} he := by
    cases e with
    | context name => exact absurd (.context name) he
    | _ => rfl
  ne {e e'} he := by
    rintro rfl
    cases e' with
    | context name =>
      simp only [memberOf] at he
      split at he <;> cases he
    | _ => cases he

lemma Exports.changes_symbolOf (x : Exports) (selected : List String) :
    Expr.Changes (x.symbolOf selected) where
  relinked {e} he := by
    cases e with
    | context name => exact absurd (.context name) he
    | _ => rfl
  ne {e e'} he := by
    rintro rfl
    cases e' with
    | context name =>
      simp only [symbolOf] at he
      split at he <;> cases he
    | _ => cases he

/-! ### An example -/

namespace Lending

/-- A file with a macro that shows an entry of the context:
`{% macro g() %}{{ title }}{% endmacro %}`. -/
def lender : String :=
  "\x7b% macro g() %\x7d\x7b\x7b title \x7d\x7d\x7b% endmacro %\x7d"

/-- A file with a macro that imports that macro and calls it, and with a macro called like the
entry:
`{% macro m() %}{% from "G" import g %}{{ g() }}{% endmacro %}{% macro title() %}{% endmacro %}`.
-/
def borrower : String :=
  "\x7b% macro m() %\x7d\x7b% from \"G\" import g %\x7d\x7b\x7b g() \x7d\x7d\x7b% endmacro %\x7d" ++
    "\x7b% macro title() %\x7d\x7b% endmacro %\x7d"

/-- A page that imports the second file and calls its macro:
`{% import "F" as w %}{{ w.m() }}`. -/
def page : String :=
  "\x7b% import \"F\" as w %\x7d\x7b\x7b w.m() \x7d\x7d"

/-- The two files can be imported. -/
def compiler : Compiler where
  tags := .standard
  library := ⟨fun name => if name = "F" then some borrower else if name = "G" then some lender
    else none, fun _ => none⟩
  maxDepth := 3

/-- The nodes of the tags that import the files. -/
def importAll : Node :=
  .tag ⟨"import", .importAll ⟨"F", "w", false⟩, 1, ⟨0, 21⟩⟩ []

def importNames : Node :=
  .tag ⟨"from", .importNames ⟨"G", ["g"], false⟩, 1, ⟨15, 38⟩⟩ []

/-- The nodes in the macro that imports the first file. -/
def borrowingNodes : List Node :=
  [importNames, .output ⟨.call (.var "g") [] [], "g()", 1, ⟨38, 47⟩⟩]

/-- The nodes of the files. -/
def lenderNodes : List Node :=
  [.tag ⟨"macro", .definition ⟨"g", []⟩, 1, ⟨0, 40⟩⟩ [.output ⟨.var "title", "title", 1, ⟨15, 26⟩⟩]]

def borrowerNodes : List Node :=
  [.tag ⟨"macro", .definition ⟨"m", []⟩, 1, ⟨0, 61⟩⟩ borrowingNodes,
    .tag ⟨"macro", .definition ⟨"title", []⟩, 1, ⟨61, 94⟩⟩ []]

def pageNodes : List Node :=
  [importAll, .output ⟨.call (.member (.var "w") "m") [] [], "w.m()", 1, ⟨21, 32⟩⟩]

lemma lender_read : compiler.nodes ⟨"G", lender⟩ = .ok lenderNodes := by
  have hread : Node.ofSource .standard lender = .ok lenderNodes := by
    refine Node.ofSource_of [⟨.tag, " macro g() ".toList, 0, 1⟩,
      ⟨.output, " title ".toList, 15, 1⟩, ⟨.tag, " endmacro ".toList, 26, 1⟩]
      (by decide +kernel) ?_
    rw [Builder.foldlM_add (Builder.add_tag ⟨rfl, by cbv, by cbv, by cbv, by cbv⟩ .definition
        [⟨.blank, " ", ⟨8, 9⟩, 1⟩, ⟨.emptyCall, "g", ⟨9, 12⟩, 1⟩, ⟨.blank, " ", ⟨12, 13⟩, 1⟩]
        (.definition ⟨"g", []⟩) (by cbv) (by cbv) (by decide +kernel) (by cbv)),
      Builder.foldlM_add (Builder.add_output
        [⟨.blank, " ", ⟨17, 18⟩, 1⟩, ⟨.path, "title", ⟨18, 23⟩, 1⟩, ⟨.blank, " ", ⟨23, 24⟩, 1⟩]
        (.var "title") rfl (by cbv) (by decide +kernel) (by cbv)),
      Builder.foldlM_add (Builder.add_end ⟨rfl, by cbv, by cbv, by cbv, by cbv⟩ (by cbv) (by cbv)
        rfl rfl)]
    rfl
  show (Node.ofSource .standard lender).mapError _ = _
  rw [hread]
  rfl

lemma borrower_read : compiler.nodes ⟨"F", borrower⟩ = .ok borrowerNodes := by
  have hread : Node.ofSource .standard borrower = .ok borrowerNodes := by
    refine Node.ofSource_of [⟨.tag, " macro m() ".toList, 0, 1⟩,
      ⟨.tag, " from \"G\" import g ".toList, 15, 1⟩, ⟨.output, " g() ".toList, 38, 1⟩,
      ⟨.tag, " endmacro ".toList, 47, 1⟩, ⟨.tag, " macro title() ".toList, 61, 1⟩,
      ⟨.tag, " endmacro ".toList, 80, 1⟩] (by decide +kernel) ?_
    rw [Builder.foldlM_add (Builder.add_tag ⟨rfl, by cbv, by cbv, by cbv, by cbv⟩ .definition
        [⟨.blank, " ", ⟨8, 9⟩, 1⟩, ⟨.emptyCall, "m", ⟨9, 12⟩, 1⟩, ⟨.blank, " ", ⟨12, 13⟩, 1⟩]
        (.definition ⟨"m", []⟩) (by cbv) (by cbv) (by decide +kernel) (by cbv)),
      Builder.foldlM_add (Builder.add_tag ⟨rfl, by cbv, by cbv, by cbv, by cbv⟩ .importNames
        [⟨.blank, " ", ⟨22, 23⟩, 1⟩, ⟨.string, "\"G\"", ⟨23, 26⟩, 1⟩, ⟨.blank, " ", ⟨26, 27⟩, 1⟩,
          ⟨.path, "import", ⟨27, 33⟩, 1⟩, ⟨.blank, " ", ⟨33, 34⟩, 1⟩, ⟨.path, "g", ⟨34, 35⟩, 1⟩,
          ⟨.blank, " ", ⟨35, 36⟩, 1⟩]
        (.importNames ⟨"G", ["g"], false⟩) (by cbv) (by cbv) (by decide +kernel) (by cbv)),
      Builder.foldlM_add (Builder.add_output
        [⟨.blank, " ", ⟨40, 41⟩, 1⟩, ⟨.emptyCall, "g", ⟨41, 44⟩, 1⟩, ⟨.blank, " ", ⟨44, 45⟩, 1⟩]
        (.call (.var "g") [] []) rfl (by cbv) (by decide +kernel) (by cbv)),
      Builder.foldlM_add (Builder.add_end ⟨rfl, by cbv, by cbv, by cbv, by cbv⟩ (by cbv) (by cbv)
        rfl rfl),
      Builder.foldlM_add (Builder.add_tag ⟨rfl, by cbv, by cbv, by cbv, by cbv⟩ .definition
        [⟨.blank, " ", ⟨69, 70⟩, 1⟩, ⟨.emptyCall, "title", ⟨70, 77⟩, 1⟩, ⟨.blank, " ", ⟨77, 78⟩, 1⟩]
        (.definition ⟨"title", []⟩) (by cbv) (by cbv) (by decide +kernel) (by cbv)),
      Builder.foldlM_add (Builder.add_end ⟨rfl, by cbv, by cbv, by cbv, by cbv⟩ (by cbv) (by cbv)
        rfl rfl)]
    rfl
  show (Node.ofSource .standard borrower).mapError _ = _
  rw [hread]
  rfl

lemma page_read : compiler.nodes ⟨"page.html", page⟩ = .ok pageNodes := by
  have hread : Node.ofSource .standard page = .ok pageNodes := by
    refine Node.ofSource_of [⟨.tag, " import \"F\" as w ".toList, 0, 1⟩,
      ⟨.output, " w.m() ".toList, 21, 1⟩] (by decide +kernel) ?_
    rw [Builder.foldlM_add (Builder.add_tag ⟨rfl, by cbv, by cbv, by cbv, by cbv⟩ .importAll
        [⟨.blank, " ", ⟨9, 10⟩, 1⟩, ⟨.string, "\"F\"", ⟨10, 13⟩, 1⟩, ⟨.blank, " ", ⟨13, 14⟩, 1⟩,
          ⟨.path, "as", ⟨14, 16⟩, 1⟩, ⟨.blank, " ", ⟨16, 17⟩, 1⟩, ⟨.path, "w", ⟨17, 18⟩, 1⟩,
          ⟨.blank, " ", ⟨18, 19⟩, 1⟩]
        (.importAll ⟨"F", "w", false⟩) (by cbv) (by cbv) (by decide +kernel) (by cbv)),
      Builder.foldlM_add (Builder.add_output
        [⟨.blank, " ", ⟨23, 24⟩, 1⟩, ⟨.emptyCall, "w.m", ⟨24, 29⟩, 1⟩, ⟨.blank, " ", ⟨29, 30⟩, 1⟩]
        (.call (.member (.var "w") "m") [] []) rfl (by cbv) (by decide +kernel) (by cbv))]
    rfl
  show (Node.ofSource .standard page).mapError _ = _
  rw [hread]
  rfl

/-- The macro of the first file, if it shows what `e` says. -/
def lent (e : Expr) : Macro :=
  ⟨"g", [], [.output e], "G"⟩

/-- The macro of the second file that borrows it. -/
def borrowing (e : Expr) : Macro :=
  ⟨"m", [], [.define (.context "g") (lent e), .output (.call (.context "g") [] [])], "F"⟩

/-- The other macro of the second file. -/
def title : Macro :=
  ⟨"title", [], [], "F"⟩

lemma lender_loaded : compiler.load (some "F") "G" = .ok ⟨"G", lender⟩ := by
  have hname : Path.join (some "F") "G" = "G" := by cbv
  rw [Compiler.load, hname]
  rfl

lemma borrower_loaded : compiler.load (some "page.html") "F" = .ok ⟨"F", borrower⟩ := by
  have hname : Path.join (some "page.html") "F" = "F" := by cbv
  rw [Compiler.load, hname]
  rfl

/-- What the second file gets of the first, wherever it is imported itself. -/
lemma lender_imported {room : Nat} {chain : List String} (hlast : chain.getLast? = some "F")
    (hchain : "G" ∉ chain) : compiler.fragments (room + 1) chain "G" =
      .ok ("G", [.definition "g" [.define (.context "g") (lent (.context "title"))]]) :=
  Compiler.fragments_of_load (by rw [hlast, lender_loaded]) hchain lender_read rfl

/-- The second file compiles to a borrowing macro and another one. -/
lemma fragments_borrower {u : FileScope} (hu : u.tags = .standard) (hfile : u.file.name = "F")
    (himported : u.imported "G" =
      .ok ("G", [.definition "g" [.define (.context "g") (lent (.context "title"))]])) :
    u.fragments borrowerNodes = .ok [.definition "m" [.define (.context "m")
        (borrowing (.context "title"))],
      .definition "title" [.define (.context "title") title]] := by
  obtain ⟨tags, file, imported⟩ := u
  obtain ⟨name, text⟩ := file
  obtain rfl : tags = .standard := hu
  obtain rfl : name = "F" := hfile
  let u : FileScope := ⟨.standard, ⟨"F", text⟩, imported⟩
  have hborrow :
      u.node [] importNames = .ok [.define (.context "g") (lent (.context "title"))] := by
    show u.importNames _ ⟨"G", ["g"], false⟩ = _
    rw [FileScope.importNames, himported]
    rfl
  have hbody : u.nodes [] borrowingNodes = .ok (borrowing (.context "title")).body := by
    rw [borrowingNodes, FileScope.nodes, hborrow]
    rfl
  have hnode : u.fragment (.tag ⟨"macro", .definition ⟨"m", []⟩, 1, ⟨0, 61⟩⟩ borrowingNodes) =
      .ok (.definition "m" [.define (.context "m") (borrowing (.context "title"))]) := by
    show (u.nodes [] borrowingNodes >>= _) >>= _ = _
    rw [hbody]
    rfl
  rw [borrowerNodes, FileScope.fragments, hnode]
  rfl

/-- The instructions of the second file on its own. -/
def alone : List Instr :=
  [.define (.context "m") (borrowing (.context "title")), .define (.context "title") title]

lemma borrower_compiled : compiler.compile ⟨"F", borrower⟩ = .ok ⟨"F", alone⟩ := by
  have hfs := fragments_borrower (u := compiler.scope ⟨"F", borrower⟩) rfl rfl
    (lender_imported rfl (by decide))
  exact Compiler.compile_of_nodes borrower_read (FileScope.nodes_of_fragments hfs)

/-- What the page gets of it. -/
def linked : List Instr :=
  [.define (.member "w" "m") (borrowing (.member (.context "w") "title")),
    .define (.member "w" "title") title]

lemma node_importAll :
    (compiler.scope ⟨"page.html", page⟩).node [] importAll = .ok [.bindSpace "w" linked []] := by
  have himported : (compiler.scope ⟨"page.html", page⟩).imported "F" =
      .ok ("F", [.definition "m" [.define (.context "m") (borrowing (.context "title"))],
        .definition "title" [.define (.context "title") title]]) :=
    Compiler.fragments_of_load borrower_loaded (by decide) borrower_read
      (fragments_borrower rfl rfl (lender_imported rfl (by decide)))
  show FileScope.importAll _ ⟨"F", "w", false⟩ = _
  rw [FileScope.importAll, himported]
  rfl

lemma page_compiled : compiler.compile ⟨"page.html", page⟩ = .ok ⟨"page.html",
    [.bindSpace "w" linked [], .output (.call (.member (.context "w") "m") [] [])]⟩ := by
  refine Compiler.compile_of_nodes page_read ?_
  rw [pageNodes, FileScope.nodes, node_importAll]
  rfl

end Lending

/-! ### What a page borrows -/

/-- What a tag makes of references to the macros of the file that it imports, what it becomes
itself, and the code of the file in it. -/
inductive TagArgs.Brings (x : Exports) :
    TagArgs → (Expr → Option Expr) → List Instr → List Instr → Prop
  | importAll {h : ImportAll} {members markup : List Instr} : Brings x (.importAll h)
      (x.memberOf h.handle) [.bindSpace h.handle members markup] (members ++ markup)
  | importNames {h : ImportNames} {is : List Instr} :
      Brings x (.importNames h) (x.symbolOf h.names) is is

/-- **Importing relinks what is exposed.** The macros of other files that a page gets with a file
are those of the file on its own, and all those exposed are among them. Of these, and of no others,
the references to macros of the file have been relinked, so that a macro stays as it was exactly if
it is not exposed or does not mention, outside of namespaces, any name that is relinked. -/
theorem importing_relinks_exposed {c : Compiler} {page file : SourceFile} {path : String}
    (hload : c.load (some page.name) path = .ok file) {params : List String} {head : TagHead}
    {content : List Node} (hpath : head.args.path? = some path) {is : List Instr}
    (hn : (c.scope page).node params (.tag head content) = .ok is) :
    ∃ p x f code, c.compile file = .ok p ∧ x.Lists file.name p.instrs ∧
      head.args.Brings x f is code ∧
      (borrowings file.name code).Subperm ((borrowings file.name p.instrs).map (·.relink f)) ∧
      ((borrowings file.name code).filter (·.exposed)).Perm
        (((borrowings file.name p.instrs).map (·.relink f)).filter (·.exposed)) ∧
      ∀ b ∈ borrowings file.name p.instrs, b.relink f = b ↔
        (b.exposed = true → ∀ r ∈ b.definition.references, f r = none) := by
  obtain ⟨word, args, line, span⟩ := head
  rw [FileScope.node] at hn
  cases args with
  | definition sig => cases hpath
  | callBlock e source => cases hpath
  | importAll h =>
    cases hpath
    split at hn <;> try cases hn
    obtain ⟨name, fs, himported, rfl⟩ := FileScope.importAll_eq hn
    obtain ⟨rfl, hcompile, hown⟩ := Compiler.compile_of_imported hload himported
    let x := Exports.ofFragments file.name fs
    have hperm :=
      @borrowings_bound_perm file.name fs x (x.memberOf h.handle) (.member h.handle) hown
    refine ⟨_, x, _, _, hcompile, Exports.lists_ofFragments hown, .importAll, ?_, ?_,
      fun b _ => b.relink_eq_self_iff (x.changes_memberOf h.handle)⟩
    · rw [x.members_eq_flatMap]
      exact hperm.subperm
    · rw [x.members_eq_flatMap]
      exact hperm.filter _
  | importNames h =>
    cases hpath
    split at hn <;> try cases hn
    obtain ⟨name, fs, himported, _, rfl⟩ := FileScope.importNames_eq hn
    obtain ⟨rfl, hcompile, hown⟩ := Compiler.compile_of_imported hload himported
    let x := Exports.ofFragments file.name fs
    have hperm := @borrowings_bound_perm file.name fs x (x.symbolOf h.names)
      (x.selectedBinding h.names) hown
    refine ⟨_, x, _, _, hcompile, Exports.lists_ofFragments hown, .importNames, ?_, ?_,
      fun b _ => b.relink_eq_self_iff (x.changes_symbolOf h.names)⟩
    · rw [x.pick_eq_flatMap]
      -- what the file shows is left out
      rw [borrowings_append] at hperm
      exact (List.sublist_append_left _ _).subperm.trans hperm.subperm
    · rw [x.pick_eq_flatMap]
      exact exposed_bound_perm hown

open Lending in
/-- The page of the example, which gets a relinked macro with the file that it imports. -/
theorem page_relinks_borrowed :
    compiler.load (some "page.html") "F" = .ok ⟨"F", borrower⟩ ∧
      (compiler.scope ⟨"page.html", page⟩).node [] importAll = .ok [.bindSpace "w" linked []] ∧
      ∃ p x f code, compiler.compile ⟨"F", borrower⟩ = .ok p ∧ x.Lists "F" p.instrs ∧
        (TagArgs.importAll ⟨"F", "w", false⟩).Brings x f [.bindSpace "w" linked []] code ∧
        (borrowings "F" code).Subperm ((borrowings "F" p.instrs).map (·.relink f)) ∧
        ((borrowings "F" code).filter (·.exposed)).Perm
          (((borrowings "F" p.instrs).map (·.relink f)).filter (·.exposed)) ∧
        ∀ b ∈ borrowings "F" p.instrs, b.relink f = b ↔
          (b.exposed = true → ∀ r ∈ b.definition.references, f r = none) :=
  ⟨borrower_loaded, node_importAll, importing_relinks_exposed borrower_loaded rfl node_importAll⟩

open Lending in
/-- What an exposed macro says changes with the page: on its own, the file borrows a macro that
shows the entry `title` of the context, and in the page this macro shows the macro `title` of the
file. -/
theorem borrowed_macro_relinked :
    (∃ p, compiler.compile ⟨"F", borrower⟩ = .ok p ∧
      borrowings "F" p.instrs = [⟨⟨"g", [], [.output (.context "title")], "G"⟩, true⟩]) ∧
    ∃ p members shown, compiler.compile ⟨"page.html", page⟩ = .ok p ∧
      p.instrs = [.bindSpace "w" members [], shown] ∧ borrowings "F" members =
        [⟨⟨"g", [], [.output (.member (.context "w") "title")], "G"⟩, true⟩] :=
  ⟨⟨_, borrower_compiled, rfl⟩, _, _, _, page_compiled, rfl, rfl⟩

end Stencil
