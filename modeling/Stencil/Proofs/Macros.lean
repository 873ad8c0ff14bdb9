import Mathlib
import Stencil.Proofs.Compiling
import Stencil.Proofs.Resolution

/-!
Files of macros: files of which every node defines a macro with plain content (`Node.Defines`).
They compile to a list of macros that does not depend on the file, save for the name of the file
that each macro carries (`FileScope.nodes_of_defines`). From there on all that matters is where the
macros are put and what references to them become: `FileScope.node_importAll` and
`FileScope.node_importNames` say this of the tags that import the file under a name and that import
macros of it by name.
-/

namespace Stencil

/-- The node defines a macro with the given signature, and its content is plain. -/
inductive Node.Defines : Node → Signature → Prop
  | mk {head : TagHead} {content : List Node} {sig : Signature} : head.args = .definition sig →
      (∀ n ∈ content, n.Plain) → Defines (.tag head content) sig

/-- The macro, written in the given file. -/
def Macro.writtenIn (m : Macro) (file : String) : Macro :=
  { m with file := file }

/-- Macros correspond wherever they are written. -/
lemma Macro.Rel.writtenIn {ref : Expr → Expr → Prop} {free : String → Prop} {m m' : Macro}
    (h : Macro.Rel ref free m m') (file file' : String) :
    Macro.Rel ref free (m.writtenIn file) (m'.writtenIn file') :=
  ⟨h.params, h.free, h.body⟩

/-- The definition of a macro that the given file puts in the context. -/
def Macro.definition (file : String) (m : Macro) : Instr :=
  .define (.context m.name) (m.writtenIn file)

/-- The macro as a piece of the given file. -/
def Macro.fragment (file : String) (m : Macro) : Fragment :=
  .definition m.name [m.definition file]

namespace FileScope

variable {tags : TagSet} {allowed free : String → Prop}

/-- A definition compiles in every file alike. -/
lemma node_of_defines {n : Node} {sig : Signature} (h : n.Defines sig) (hlegible : n.Legible tags)
    (hvars : ∀ x ∈ n.vars, allowed x) (hfree : ∀ p ∈ sig.params, free p.name) :
    ∃ m : Macro, m.name = sig.name ∧ Macro.Rel (Expr.Compiled allowed) free m m ∧
      ∀ u : FileScope, u.tags = tags →
        u.node [] n = .ok [m.definition u.file.name] ∧
        u.fragment n = .ok (m.fragment u.file.name) := by
  obtain @⟨head, content, sig, hargs, hplain⟩ := h
  obtain _ | _ | ⟨⟨kind, hkind, hsays⟩, hcontent⟩ := hlegible
  obtain ⟨word, args, line, span⟩ := head
  obtain rfl : args = .definition sig := hargs
  rw [Node.vars, List.forall_mem_append] at hvars
  obtain hsig | _ | _ | _ := hsays
  let inner := sig.params.map (·.name) ++ []
  have hnodes := nodes_of_node inner fun n hn =>
    node_of_plain (hplain n hn) (hcontent n hn)
      fun x hx => hvars.2 x (Node.mem_nodeVars.2 ⟨n, hn, hx⟩)
  obtain ⟨body, hbody, hrel⟩ := hnodes
  have hnode (u : FileScope) (hu : u.tags = tags) :
      u.node [] (.tag ⟨word, .definition sig, line, span⟩ content) =
        .ok [.define (.context sig.name) ⟨sig.name, params inner sig, body, u.file.name⟩] := by
    rw [node, hu, hkind]
    dsimp only
    rw [hbody u hu]
    rfl
  refine ⟨⟨sig.name, params inner sig, body, ""⟩, rfl, ⟨?_, ?_, hrel⟩, fun u hu => ⟨hnode u hu, ?_⟩⟩
  · refine List.forall₂_map_left_iff.2 (List.forall₂_map_right_iff.2
      (List.forall₂_same.2 fun p hp => ⟨rfl, ?_⟩))
    cases hd : p.default with
    | none => exact .none
    | some d =>
      refine .some (Expr.rel_resolve (hsig p hp d hd) fun x hx => ?_)
      refine Expr.resolves_compiled (hvars.1 x (List.mem_flatMap.2 ⟨p, hp, ?_⟩))
      simpa [hd] using hx
  · intro p hp
    obtain ⟨q, hq, rfl⟩ := List.mem_map.1 hp
    exact hfree q hq
  · rw [fragment, hnode u hu]
    rfl

/-- So do definitions. -/
lemma nodes_of_defines (free : String → Prop) {defs : List Node} {sigs : List Signature}
    (h : List.Forall₂ Node.Defines defs sigs) (hlegible : ∀ n ∈ defs, n.Legible tags)
    (hvars : ∀ n ∈ defs, ∀ x ∈ n.vars, allowed x)
    (hfree : ∀ sig ∈ sigs, ∀ p ∈ sig.params, free p.name) :
    ∃ ms : List Macro, ms.map (·.name) = sigs.map (·.name) ∧
      (∀ m ∈ ms, Macro.Rel (Expr.Compiled allowed) free m m) ∧
      ∀ u : FileScope, u.tags = tags →
        u.nodes [] defs = .ok (ms.map (Macro.definition u.file.name)) ∧
        u.fragments defs = .ok (ms.map (Macro.fragment u.file.name)) := by
  induction h with
  | nil => exact ⟨[], rfl, by simp, fun _ _ => ⟨rfl, rfl⟩⟩
  | cons hfirst _ ih =>
    rw [List.forall_mem_cons] at hlegible hvars hfree
    obtain ⟨m, hname, hrel, hm⟩ := node_of_defines hfirst hlegible.1 hvars.1 hfree.1
    obtain ⟨ms, hnames, hrels, hms⟩ := ih hlegible.2 hvars.2 hfree.2
    refine ⟨m :: ms, by simp [hname, hnames], List.forall_mem_cons.2 ⟨hrel, hrels⟩,
      fun u hu => ⟨?_, ?_⟩⟩
    · rw [nodes, (hm u hu).1, (hms u hu).1]
      rfl
    · rw [fragments, (hm u hu).2, (hms u hu).2]
      rfl

lemma nodes_append {u : FileScope} {params : List String} {ns ms : List Node}
    {is js : List Instr} (hn : u.nodes params ns = .ok is) (hm : u.nodes params ms = .ok js) :
    u.nodes params (ns ++ ms) = .ok (is ++ js) := by
  rw [nodes_append_bind, hn, hm]
  rfl

lemma nodes_singleton {u : FileScope} {params : List String} {n : Node} {is : List Instr}
    (h : u.node params n = .ok is) : u.nodes params [n] = .ok is := by
  rw [nodes, h]
  show Except.ok (is ++ []) = _
  rw [List.append_nil]

lemma nodes_output (u : FileScope) (o : Output) :
    u.nodes [] [.output o] = .ok [.output (resolve [] o.expr)] := rfl

end FileScope

/-! ### Exports of files of macros -/

namespace Exports

variable {x : Exports} {file : String} {ms : List Macro}

/-- A file of macros exports exactly these macros. -/
lemma has_iff {name : String} :
    (ofFragments file (ms.map (Macro.fragment file))).has name = true ↔
      name ∈ ms.map (·.name) := by
  rw [has_ofFragments]
  simp [Macro.fragment]

lemma has_of_mem {m : Macro} (hm : m ∈ ms) :
    (ofFragments file (ms.map (Macro.fragment file))).has m.name = true :=
  has_iff.2 (List.mem_map.2 ⟨m, hm, rfl⟩)

lemma markups_eq : Fragment.markups (ms.map (Macro.fragment file)) = [] := by
  induction ms with
  | nil => rfl
  | cons m rest ih => exact ih

/-- Linking puts a macro of the file elsewhere and replaces the references in it. -/
lemma link_definition {f : Expr → Option Expr} {target : String → Binding} {m : Macro}
    (h : x.has m.name = true) : replaceAll f ([m.definition file].map (x.rebind target)) =
      [.define (target m.name) ((m.writtenIn file).replace f)] := by
  rw [Macro.definition, List.map_cons, rebind, if_pos h]
  rfl

/-- So for all macros of the file. -/
lemma bound_eq {f : Expr → Option Expr} {target : String → Binding}
    (h : ∀ m ∈ ms, x.has m.name = true) :
    (ms.map (Macro.fragment file)).flatMap
        (Fragment.bound fun is => replaceAll f (is.map (x.rebind target))) =
      ms.map fun m => .define (target m.name) ((m.writtenIn file).replace f) := by
  induction ms with
  | nil => rfl
  | cons m rest ih =>
    rw [List.forall_mem_cons] at h
    rw [List.map_cons, List.flatMap_cons, ih h.2, Macro.fragment, Fragment.bound,
      link_definition h.1]
    rfl

lemma members_eq {handle : String} (h : ∀ m ∈ ms, x.has m.name = true) :
    x.members handle (ms.map (Macro.fragment file)) = ms.map fun m =>
      .define (.member handle m.name) ((m.writtenIn file).replace (x.memberOf handle)) := by
  rw [members_eq_flatMap]
  exact bound_eq h

lemma pick_eq {selected : List String} (h : ∀ m ∈ ms, x.has m.name = true) :
    x.pick selected (ms.map (Macro.fragment file)) = ms.map fun m =>
      .define (x.selectedBinding selected m.name)
        ((m.writtenIn file).replace (x.symbolOf selected)) := by
  rw [pick_eq_flatMap]
  exact bound_eq h

end Exports

/-! ### Pages -/

section Import

variable {c : Compiler} {page file : SourceFile} {ms : List Macro} {defs : List Node}

/-- What a page gets of a file of macros. -/
lemma Compiler.imported_eq (hdepth : 2 ≤ c.maxDepth) {path : String}
    (hload : c.load (some page.name) path = .ok file) (hname : file.name ≠ page.name)
    (hfile : c.nodes file = .ok defs)
    (hms : ∀ u : FileScope, u.tags = c.tags →
      u.fragments defs = .ok (ms.map (Macro.fragment u.file.name))) :
    (c.scope page).imported path = .ok (file.name, ms.map (Macro.fragment file.name)) := by
  obtain ⟨room, hroom⟩ : ∃ room, c.room = room + 1 := ⟨c.maxDepth - 2, by rw [room]; omega⟩
  show c.fragments c.room [page.name] path = _
  rw [hroom]
  exact fragments_of_load hload (by simpa using hname) hfile (hms _ rfl)

/-- The tag that imports a file under a name. -/
lemma FileScope.node_importAll_of {u : FileScope} {params : List String} {head : TagHead}
    {content : List Node} {name : String} {fs : List Fragment} {h : ImportAll}
    (hhead : head.Legible u.tags) (hargs : head.args = .importAll h)
    (himported : u.imported h.path = .ok (name, fs)) :
    u.node params (.tag head content) = .ok [.bindSpace h.handle
      ((Exports.ofFragments name fs).members h.handle fs) (Fragment.markups fs)] := by
  obtain ⟨kind, hkind, hsays⟩ := hhead
  rw [hargs] at hsays
  cases hsays
  rw [node, hkind]
  dsimp only
  rw [hargs]
  dsimp only
  rw [importAll, himported]
  rfl

/-- The tag that imports macros by name, if the file has them. -/
lemma FileScope.node_importNames_of {u : FileScope} {params : List String} {head : TagHead}
    {content : List Node} {name : String} {fs : List Fragment} {h : ImportNames}
    (hhead : head.Legible u.tags) (hargs : head.args = .importNames h)
    (himported : u.imported h.path = .ok (name, fs))
    (hnames : ∀ n ∈ h.names, (Exports.ofFragments name fs).has n = true) :
    u.node params (.tag head content) =
      .ok ((Exports.ofFragments name fs).pick h.names fs) := by
  obtain ⟨kind, hkind, hsays⟩ := hhead
  rw [hargs] at hsays
  cases hsays
  have hfind : (h.names.find? fun n => !(Exports.ofFragments name fs).has n) = none := by
    refine List.find?_eq_none.2 fun n hn => ?_
    simp [hnames n hn]
  rw [node, hkind]
  dsimp only
  rw [hargs]
  dsimp only
  rw [importNames, himported]
  simp only [bind, Except.bind, hfind]
  rfl

/-- The tag that imports a file under a name puts its macros into the namespace of that name. -/
lemma FileScope.node_importAll {u : FileScope} {head : TagHead} {content : List Node}
    {name : String} {h : ImportAll} (hhead : head.Legible u.tags) (hargs : head.args = .importAll h)
    (himported : u.imported h.path = .ok (name, ms.map (Macro.fragment name))) :
    u.node [] (.tag head content) = .ok [.bindSpace h.handle (ms.map fun m =>
      .define (.member h.handle m.name) ((m.writtenIn name).replace
        ((Exports.ofFragments name (ms.map (Macro.fragment name))).memberOf h.handle)))
      []] := by
  rw [node_importAll_of hhead hargs himported, Exports.members_eq fun _ => Exports.has_of_mem,
    Exports.markups_eq]

/-- The tag that imports macros by name puts them into the context and the others aside. -/
lemma FileScope.node_importNames {u : FileScope} {head : TagHead} {content : List Node}
    {name : String} {h : ImportNames} (hhead : head.Legible u.tags)
    (hargs : head.args = .importNames h)
    (himported : u.imported h.path = .ok (name, ms.map (Macro.fragment name)))
    (hnames : ∀ n ∈ h.names, n ∈ ms.map (·.name)) :
    u.node [] (.tag head content) = .ok (ms.map fun m =>
      .define ((Exports.ofFragments name
          (ms.map (Macro.fragment name))).selectedBinding h.names m.name)
        ((m.writtenIn name).replace
          ((Exports.ofFragments name (ms.map (Macro.fragment name))).symbolOf h.names))) := by
  rw [node_importNames_of hhead hargs himported fun n hn => Exports.has_iff.2 (hnames n hn),
    Exports.pick_eq fun _ => Exports.has_of_mem]

end Import

/-! ### An example -/

namespace Greeting

/-- A file with two macros, of which one calls the other in a default:
`{% macro b(x) %}<{{ x }}>{% endmacro %}{% macro hi(name, n=b(name)) %}Hi {{ n }}{% endmacro %}`. -/
def macros : String :=
  "\x7b% macro b(x) %\x7d<\x7b\x7b x \x7d\x7d>\x7b% endmacro %\x7d" ++
    "\x7b% macro hi(name, n=b(name)) %\x7dHi \x7b\x7b n \x7d\x7d\x7b% endmacro %\x7d"

/-- The signatures of the macros. -/
def signatures : List Signature :=
  [⟨"b", [⟨"x", none⟩]⟩,
    ⟨"hi", [⟨"name", none⟩, ⟨"n", some ⟨"b(name)", .call (.var "b") [.var "name"] []⟩⟩]⟩]

/-- The nodes of the file. -/
def definitions : List Node :=
  [.tag ⟨"macro", .definition ⟨"b", [⟨"x", none⟩]⟩, 1, ⟨0, 39⟩⟩
      [.text "<", .output ⟨.var "x", "x", 1, ⟨17, 24⟩⟩, .text ">"],
    .tag ⟨"macro", .definition ⟨"hi", [⟨"name", none⟩,
        ⟨"n", some ⟨"b(name)", .call (.var "b") [.var "name"] []⟩⟩]⟩, 1, ⟨39, 94⟩⟩
      [.text "Hi ", .output ⟨.var "n", "n", 1, ⟨73, 80⟩⟩]]

/-- A page that defines the macros and calls one: `{{ hi(name) }}` behind the file. -/
def inline : String :=
  macros ++ "\x7b\x7b hi(name) \x7d\x7d"

/-- A page that imports the file and calls a macro:
`{% import "lib" as w %}{{ w.hi(name) }}`. -/
def whole : String :=
  "\x7b% import \"lib\" as w %\x7d\x7b\x7b w.hi(name) \x7d\x7d"

/-- A page that imports a macro of the file and calls it:
`{% from "lib" import hi %}{{ hi(name) }}`. -/
def picked : String :=
  "\x7b% from \"lib\" import hi %\x7d\x7b\x7b hi(name) \x7d\x7d"

/-- The segments of the file. -/
def segments : List Segment :=
  [⟨.tag, " macro b(x) ".toList, 0, 1⟩, ⟨.text, "<".toList, 16, 1⟩,
    ⟨.output, " x ".toList, 17, 1⟩, ⟨.text, ">".toList, 24, 1⟩,
    ⟨.tag, " endmacro ".toList, 25, 1⟩, ⟨.tag, " macro hi(name, n=b(name)) ".toList, 39, 1⟩,
    ⟨.text, "Hi ".toList, 70, 1⟩, ⟨.output, " n ".toList, 73, 1⟩,
    ⟨.tag, " endmacro ".toList, 80, 1⟩]

lemma add_segments : segments.foldlM (Builder.add .standard) .empty = .ok ⟨definitions, []⟩ := by
  rw [segments,
    Builder.foldlM_add (Builder.add_tag ⟨rfl, by cbv, by cbv, by cbv, by cbv⟩ .definition
      [⟨.blank, " ", ⟨8, 9⟩, 1⟩, ⟨.call, "b", ⟨9, 11⟩, 1⟩, ⟨.path, "x", ⟨11, 12⟩, 1⟩,
        ⟨.parenClose, ")", ⟨12, 13⟩, 1⟩, ⟨.blank, " ", ⟨13, 14⟩, 1⟩]
      (.definition ⟨"b", [⟨"x", none⟩]⟩) (by cbv) (by cbv) (by decide +kernel) (by cbv)),
    Builder.foldlM_add (Builder.add_text rfl),
    Builder.foldlM_add (Builder.add_output
      [⟨.blank, " ", ⟨19, 20⟩, 1⟩, ⟨.path, "x", ⟨20, 21⟩, 1⟩, ⟨.blank, " ", ⟨21, 22⟩, 1⟩]
      (.var "x") rfl (by cbv) (by decide +kernel) (by cbv)),
    Builder.foldlM_add (Builder.add_text rfl),
    Builder.foldlM_add (Builder.add_end ⟨rfl, by cbv, by cbv, by cbv, by cbv⟩ (by cbv) (by cbv)
      rfl rfl),
    Builder.foldlM_add (Builder.add_tag ⟨rfl, by cbv, by cbv, by cbv, by cbv⟩ .definition
      [⟨.blank, " ", ⟨47, 48⟩, 1⟩, ⟨.call, "hi", ⟨48, 51⟩, 1⟩, ⟨.path, "name", ⟨51, 55⟩, 1⟩,
        ⟨.comma, ",", ⟨55, 56⟩, 1⟩, ⟨.blank, " ", ⟨56, 57⟩, 1⟩, ⟨.path, "n", ⟨57, 58⟩, 1⟩,
        ⟨.assignment, "=", ⟨58, 59⟩, 1⟩, ⟨.call, "b", ⟨59, 61⟩, 1⟩, ⟨.path, "name", ⟨61, 65⟩, 1⟩,
        ⟨.parenClose, ")", ⟨65, 66⟩, 1⟩, ⟨.parenClose, ")", ⟨66, 67⟩, 1⟩,
        ⟨.blank, " ", ⟨67, 68⟩, 1⟩]
      (.definition ⟨"hi", [⟨"name", none⟩,
        ⟨"n", some ⟨"b(name)", .call (.var "b") [.var "name"] []⟩⟩]⟩)
      (by cbv) (by cbv) (by decide +kernel) (by cbv)),
    Builder.foldlM_add (Builder.add_text rfl),
    Builder.foldlM_add (Builder.add_output
      [⟨.blank, " ", ⟨75, 76⟩, 1⟩, ⟨.path, "n", ⟨76, 77⟩, 1⟩, ⟨.blank, " ", ⟨77, 78⟩, 1⟩]
      (.var "n") rfl (by cbv) (by decide +kernel) (by cbv)),
    Builder.foldlM_add (Builder.add_end ⟨rfl, by cbv, by cbv, by cbv, by cbv⟩ (by cbv) (by cbv)
      rfl rfl)]
  rfl

lemma macros_read : Node.ofSource .standard macros = .ok definitions :=
  Node.ofSource_of segments (by decide +kernel) add_segments

/-- A file can be imported from the file called `lib`. -/
def compiler : Compiler where
  tags := .standard
  library := ⟨fun name => if name = "lib" then some macros else none, fun _ => none⟩
  maxDepth := 2

/-- The node of the output of a call. -/
def call (callee : Expr) (source : String) (start stop : Nat) : Node :=
  .output ⟨.call callee [.var "name"] [], source, 1, ⟨start, stop⟩⟩

/-- The nodes of the tags that import the file and a macro of it. -/
def importAll : Node :=
  .tag ⟨"import", .importAll ⟨"lib", "w", false⟩, 1, ⟨0, 23⟩⟩ []

def importNames : Node :=
  .tag ⟨"from", .importNames ⟨"lib", ["hi"], false⟩, 1, ⟨0, 26⟩⟩ []

lemma inline_read : compiler.nodes ⟨"page", inline⟩ =
    .ok (definitions ++ [call (.var "hi") "hi(name)" 94 108]) := by
  have hread : Node.ofSource .standard inline =
      .ok (definitions ++ [call (.var "hi") "hi(name)" 94 108]) := by
    refine Node.ofSource_of (segments ++ [⟨.output, " hi(name) ".toList, 94, 1⟩])
      (by decide +kernel) ?_
    rw [List.foldlM_append, add_segments]
    show List.foldlM _ _ _ = _
    rw [Builder.foldlM_add (Builder.add_output
      [⟨.blank, " ", ⟨96, 97⟩, 1⟩, ⟨.call, "hi", ⟨97, 100⟩, 1⟩, ⟨.path, "name", ⟨100, 104⟩, 1⟩,
        ⟨.parenClose, ")", ⟨104, 105⟩, 1⟩, ⟨.blank, " ", ⟨105, 106⟩, 1⟩]
      (.call (.var "hi") [.var "name"] []) rfl (by cbv) (by decide +kernel) (by cbv))]
    rfl
  show (Node.ofSource .standard inline).mapError _ = _
  rw [hread]
  rfl

lemma whole_read : compiler.nodes ⟨"page", whole⟩ =
    .ok [importAll, call (.member (.var "w") "hi") "w.hi(name)" 23 39] := by
  have hread : Node.ofSource .standard whole =
      .ok [importAll, call (.member (.var "w") "hi") "w.hi(name)" 23 39] := by
    refine Node.ofSource_of [⟨.tag, " import \"lib\" as w ".toList, 0, 1⟩,
      ⟨.output, " w.hi(name) ".toList, 23, 1⟩] (by decide +kernel) ?_
    rw [Builder.foldlM_add (Builder.add_tag ⟨rfl, by cbv, by cbv, by cbv, by cbv⟩ .importAll
        [⟨.blank, " ", ⟨9, 10⟩, 1⟩, ⟨.string, "\"lib\"", ⟨10, 15⟩, 1⟩, ⟨.blank, " ", ⟨15, 16⟩, 1⟩,
          ⟨.path, "as", ⟨16, 18⟩, 1⟩, ⟨.blank, " ", ⟨18, 19⟩, 1⟩, ⟨.path, "w", ⟨19, 20⟩, 1⟩,
          ⟨.blank, " ", ⟨20, 21⟩, 1⟩]
        (.importAll ⟨"lib", "w", false⟩) (by cbv) (by cbv) (by decide +kernel) (by cbv)),
      Builder.foldlM_add (Builder.add_output
        [⟨.blank, " ", ⟨25, 26⟩, 1⟩, ⟨.call, "w.hi", ⟨26, 31⟩, 1⟩, ⟨.path, "name", ⟨31, 35⟩, 1⟩,
          ⟨.parenClose, ")", ⟨35, 36⟩, 1⟩, ⟨.blank, " ", ⟨36, 37⟩, 1⟩]
        (.call (.member (.var "w") "hi") [.var "name"] []) rfl (by cbv) (by decide +kernel)
        (by cbv))]
    rfl
  show (Node.ofSource .standard whole).mapError _ = _
  rw [hread]
  rfl

lemma picked_read : compiler.nodes ⟨"page", picked⟩ =
    .ok [importNames, call (.var "hi") "hi(name)" 26 40] := by
  have hread : Node.ofSource .standard picked =
      .ok [importNames, call (.var "hi") "hi(name)" 26 40] := by
    refine Node.ofSource_of [⟨.tag, " from \"lib\" import hi ".toList, 0, 1⟩,
      ⟨.output, " hi(name) ".toList, 26, 1⟩] (by decide +kernel) ?_
    rw [Builder.foldlM_add (Builder.add_tag ⟨rfl, by cbv, by cbv, by cbv, by cbv⟩ .importNames
        [⟨.blank, " ", ⟨7, 8⟩, 1⟩, ⟨.string, "\"lib\"", ⟨8, 13⟩, 1⟩, ⟨.blank, " ", ⟨13, 14⟩, 1⟩,
          ⟨.path, "import", ⟨14, 20⟩, 1⟩, ⟨.blank, " ", ⟨20, 21⟩, 1⟩, ⟨.path, "hi", ⟨21, 23⟩, 1⟩,
          ⟨.blank, " ", ⟨23, 24⟩, 1⟩]
        (.importNames ⟨"lib", ["hi"], false⟩) (by cbv) (by cbv) (by decide +kernel) (by cbv)),
      Builder.foldlM_add (Builder.add_output
        [⟨.blank, " ", ⟨28, 29⟩, 1⟩, ⟨.call, "hi", ⟨29, 32⟩, 1⟩, ⟨.path, "name", ⟨32, 36⟩, 1⟩,
          ⟨.parenClose, ")", ⟨36, 37⟩, 1⟩, ⟨.blank, " ", ⟨37, 38⟩, 1⟩]
        (.call (.var "hi") [.var "name"] []) rfl (by cbv) (by decide +kernel) (by cbv))]
    rfl
  show (Node.ofSource .standard picked).mapError _ = _
  rw [hread]
  rfl

lemma library_read : compiler.nodes ⟨"lib", macros⟩ = .ok definitions := by
  show (Node.ofSource .standard macros).mapError _ = _
  rw [macros_read]
  rfl

lemma library_loaded : compiler.load (some "page") "lib" = .ok ⟨"lib", macros⟩ := by
  have hname : Path.join (some "page") "lib" = "lib" := by cbv
  rw [Compiler.load, hname]
  rfl

/-- Each node of the file defines a macro. -/
lemma definitions_define : List.Forall₂ Node.Defines definitions signatures := by
  refine .cons (.mk rfl ?_) (.cons (.mk rfl ?_) .nil)
  · simp [Node.Plain.text, Node.Plain.output]
  · simp [Node.Plain.text, Node.Plain.output]

/-- What the definitions compile to. -/
def compiled : List Macro :=
  [⟨"b", [⟨"x", none⟩], [.text "<", .output (.param "x"), .text ">"], ""⟩,
    ⟨"hi", [⟨"name", none⟩, ⟨"n", some (.call (.context "b") [.param "name"] [])⟩],
      [.text "Hi ", .output (.param "n")], ""⟩]

lemma nodes_definitions {u : FileScope} (hu : u.tags = .standard) :
    u.nodes [] definitions = .ok (compiled.map (Macro.definition u.file.name)) := by
  obtain ⟨tags, file, imported⟩ := u
  obtain rfl : tags = .standard := hu
  rfl

lemma fragments_definitions {u : FileScope} (hu : u.tags = .standard) :
    u.fragments definitions = .ok (compiled.map (Macro.fragment u.file.name)) := by
  obtain ⟨tags, file, imported⟩ := u
  obtain rfl : tags = .standard := hu
  rfl

/-- What a page gets of the file. -/
lemma library_imported (text : String) : (compiler.scope ⟨"page", text⟩).imported "lib" =
    .ok ("lib", compiled.map (Macro.fragment "lib")) :=
  Compiler.imported_eq (by decide) library_loaded (show "lib" ≠ "page" by decide) library_read
    fun _ hu => fragments_definitions hu

/-- The macros in the namespace `w`. -/
def linked : List Instr :=
  [.define (.member "w" "b") ⟨"b", [⟨"x", none⟩],
      [.text "<", .output (.param "x"), .text ">"], "lib"⟩,
    .define (.member "w" "hi") ⟨"hi", [⟨"name", none⟩,
        ⟨"n", some (.call (.member (.context "w") "b") [.param "name"] [])⟩],
      [.text "Hi ", .output (.param "n")], "lib"⟩]

/-- The call of the macro in the namespace. -/
def greeting : Expr :=
  .call (.member (.context "w") "hi") [.context "name"] []

/-- The page that imports the file, compiled. -/
def program : Program :=
  ⟨"page", [.bindSpace "w" linked [],
    .output greeting]⟩

lemma whole_compiled : compiler.compile ⟨"page", whole⟩ = .ok program := by
  let u := compiler.scope ⟨"page", whole⟩
  have hlegible : TagHead.Legible u.tags ⟨"import", .importAll ⟨"lib", "w", false⟩, 1, ⟨0, 23⟩⟩ :=
    ⟨.importAll, rfl, .importAll _⟩
  have himport : u.nodes [] [importAll] = .ok [.bindSpace "w" linked []] :=
    FileScope.nodes_singleton (FileScope.node_importAll hlegible rfl (library_imported whole))
  exact Compiler.compile_of_nodes whole_read
    (FileScope.nodes_append himport (FileScope.nodes_output u _))

lemma outermost_of_read {page : SourceFile} {ns : List Node} (hread : compiler.nodes page = .ok ns)
    (h : ∀ n ∈ ns, n.Outermost) : compiler.Outermost page := by
  rintro _ hns
  rw [hread] at hns
  cases hns
  exact h

lemma library_outermost : compiler.LibraryOutermost := by
  intro name text htext
  simp only [compiler] at htext
  split at htext
  next hname =>
    cases hname
    cases htext
    refine outermost_of_read library_read ?_
    simp [definitions, Node.Outermost, Node.Plain.text, Node.Plain.output]
  next => cases htext

/-- The data of the pages. -/
def data : Json :=
  .object (.ofList [("name", .string "Ada")])

def context : Context :=
  ⟨.ofList [("name", .string "Ada")]⟩

lemma data_read : Context.ofJson data = .ok context := rfl

end Greeting

end Stencil
