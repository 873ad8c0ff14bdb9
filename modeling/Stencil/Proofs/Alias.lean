import Stencil.Proofs.Linking
import Stencil.Proofs.Renaming
import Stencil.Proofs.Stopping

/-!
The name under which a file is imported. Two pages that differ in such a name, and in what they say
about it, compile alike: the code of the one is that of the other with another name in the context
(`FileScope.nodes_renamed`). So they put out the same as long as neither name is used for anything
else, in particular not by the files that the pages import (`renaming_preserves_output`).

That the files do not read the names is not enough. An invocation removes the names of its
parameters from the context, so that a macro with a parameter called like the import does not find
the other macros of its file (`handle_captured`).
-/

namespace Stencil

/-! ### Nodes with other names -/

/-- A variable, and the one with another name. -/
inductive Expr.VarRenamed (σ : Equiv.Perm String) : Expr → Expr → Prop
  | var (name : String) : VarRenamed σ (.var name) (.var (σ name))

/-- Parameters with the same name, which stays, and with corresponding defaults. -/
structure Parameter.Renamed (σ : Equiv.Perm String) (p p' : Parameter) : Prop where
  name : p'.name = p.name
  fixed : σ p.name = p.name
  default : Option.Rel (fun d d' : Default => Expr.Rel (Expr.VarRenamed σ) d.expr d'.expr)
    p.default p'.default

/-- Arguments of tags with other names for macros and for imported files. The names of macros that
are imported stay. -/
inductive TagArgs.Renamed (σ : Equiv.Perm String) : TagArgs → TagArgs → Prop
  | definition {ps ps' : List Parameter} (name : String) :
      List.Forall₂ (Parameter.Renamed σ) ps ps' →
      Renamed σ (.definition ⟨name, ps⟩) (.definition ⟨σ name, ps'⟩)
  | callBlock {e e' : Expr} (source source' : String) : Expr.Rel (Expr.VarRenamed σ) e e' →
      Renamed σ (.callBlock e source) (.callBlock e' source')
  | importAll (path handle : String) (withContext : Bool) :
      Renamed σ (.importAll ⟨path, handle, withContext⟩) (.importAll ⟨path, σ handle, withContext⟩)
  | importNames {h : ImportNames} : (∀ n ∈ h.names, σ n = n) →
      Renamed σ (.importNames h) (.importNames h)

/-- Nodes that differ in names, and in what follows from that for the places and the texts of tags
and expressions. -/
inductive Node.Renamed (σ : Equiv.Perm String) : List Node → List Node → Prop
  | nil : Renamed σ [] []
  | text (s : String) {ns ns' : List Node} : Renamed σ ns ns' →
      Renamed σ (.text s :: ns) (.text s :: ns')
  | output {o o' : Output} {ns ns' : List Node} : Expr.Rel (Expr.VarRenamed σ) o.expr o'.expr →
      Renamed σ ns ns' → Renamed σ (.output o :: ns) (.output o' :: ns')
  | tag (word : String) {args args' : TagArgs} (line line' : Nat) (span span' : Text.Span)
      {content content' ns ns' : List Node} : args.Renamed σ args' → Renamed σ content content' →
      Renamed σ ns ns' → Renamed σ (.tag ⟨word, args, line, span⟩ content :: ns)
        (.tag ⟨word, args', line', span'⟩ content' :: ns')

/-- Corresponding parameters have the same names, which stay. -/
lemma Parameter.names_renamed {σ : Equiv.Perm String} {ps ps' : List Parameter}
    (h : List.Forall₂ (Parameter.Renamed σ) ps ps') :
    ps'.map (·.name) = ps.map (·.name) ∧ ∀ n ∈ ps.map (·.name), σ n = n := by
  induction h with
  | nil => exact ⟨rfl, fun _ hn => nomatch hn⟩
  | cons hp _ ih =>
    rw [List.map_cons, List.map_cons, hp.name, ih.1]
    exact ⟨rfl, List.forall_mem_cons.2 ⟨hp.fixed, ih.2⟩⟩

section Resolve

variable {σ : Equiv.Perm String} {params : List String} (hparams : ∀ n ∈ params, σ n = n)

include hparams

/-- Variables of corresponding names are parameters on both sides or on none. -/
lemma Expr.relinksBoth_resolveVar :
    RelinksBoth (VarRenamed σ) (Renamed σ) (resolveVar params.contains)
      (resolveVar params.contains) where
  left := relinked_resolveVar _
  right := relinked_resolveVar _
  reference := by
    rintro _ _ ⟨name⟩
    show Rel _ (located params.contains name) (located params.contains (σ name))
    rw [located, located]
    by_cases hname : name ∈ params
    · rw [hparams name hname, if_pos (List.contains_iff_mem.2 hname)]
      exact .reference (.param name)
    · have hother : σ name ∉ params := fun h =>
        hname (σ.injective (hparams _ h) ▸ h)
      rw [if_neg (mt List.contains_iff_mem.1 hname), if_neg (mt List.contains_iff_mem.1 hother)]
      exact .reference (.context name)

lemma FileScope.resolve_renamed {e e' : Expr} (h : Expr.Rel (Expr.VarRenamed σ) e e') :
    Expr.Rel (Expr.Renamed σ) (resolve params e) (resolve params e') :=
  h.replaceBoth (Expr.relinksBoth_resolveVar hparams)

lemma FileScope.params_renamed {ps ps' : List Parameter} (name name' : String)
    (h : List.Forall₂ (Parameter.Renamed σ) ps ps') :
    List.Forall₂ (Param.Rel (Expr.Renamed σ)) (FileScope.params params ⟨name, ps⟩)
      (FileScope.params params ⟨name', ps'⟩) := by
  refine List.forall₂_map_left_iff.2 (List.forall₂_map_right_iff.2 (h.imp fun p p' hp => ?_))
  refine ⟨hp.name.symm, ?_⟩
  have hdefault := hp.default
  show Option.Rel _ (p.default.map _) (p'.default.map _)
  generalize p.default = d at hdefault ⊢
  generalize p'.default = d' at hdefault ⊢
  cases hdefault with
  | none => exact .none
  | some hd => exact .some (resolve_renamed hparams hd)

end Resolve

/-! ### Compiled code with other names -/

/-- The file that the path refers to, if it can be imported, avoids the names. -/
def FileScope.Avoids (u : FileScope) (names : List String) (path : String) : Prop :=
  ∀ file fragments, u.imported path = .ok (file, fragments) →
    ∀ f ∈ fragments, f.Avoids (.ofFragments file fragments) names

namespace FileScope

/-- Both compile to corresponding code, or to errors of the same kind. -/
abbrev Renames (σ : Equiv.Perm String) :
    Except Error (List Instr) → Except Error (List Instr) → Prop :=
  Tally Error.SameKind ((Translation.permuting σ).Code ())

variable {σ : Equiv.Perm String} {names : List String} {u u' : FileScope}
  (hσ : ∀ n, n ∉ names → σ n = n)
  (hscoped : ∀ path file fs, u.imported path = .ok (file, fs) →
    ∀ f ∈ fs, ∀ i ∈ f.code, i.Scoped file [])
  (himported : u'.imported = u.imported)

include hσ hscoped himported

/-- The instructions for importing a file under another name. -/
lemma importAll_renamed {path : String} (havoids : u.Avoids names path) (handle : String)
    (withContext : Bool) : Renames σ
      (u.importAll ⟨path, handle, withContext⟩) (u'.importAll ⟨path, σ handle, withContext⟩) := by
  rw [importAll, importAll, himported]
  cases hload : u.imported path with
  | error e => exact .error rfl
  | ok loaded =>
    obtain ⟨file, fragments⟩ := loaded
    have hcode := hscoped _ _ _ hload
    have hfile := havoids _ _ hload
    exact .ok (.bindSpace handle (Translation.code_members hσ hcode hfile handle)
      (Translation.code_markups hσ hcode hfile) (.nil _))

/-- The instructions for importing macros whose names stay. -/
lemma importNames_renamed {h : ImportNames} (havoids : u.Avoids names h.path)
    (hfixed : ∀ n ∈ h.names, σ n = n) (head head' : TagHead) :
    Renames σ (u.importNames head h) (u'.importNames head' h) := by
  rw [importNames, importNames, himported]
  cases hload : u.imported h.path with
  | error e => exact .error rfl
  | ok loaded =>
    obtain ⟨file, fragments⟩ := loaded
    simp only [bind, Except.bind]
    split
    · exact .error rfl
    · exact .ok (Translation.code_pick hσ (hscoped _ _ _ hload) (havoids _ _ hload) hfixed)

variable (htags : u'.tags = u.tags)

include htags

/-- A tag with other names, if what it contains corresponds. -/
lemma tag_renamed {args args' : TagArgs} (hargs : args.Renamed σ args')
    {content content' : List Node}
    (hcontent : ∀ {inner}, (∀ n ∈ inner, σ n = n) → Renames σ
      (u.nodes inner content) (u'.nodes inner content'))
    (havoids : ∀ path ∈ args.path?, u.Avoids names path) {params : List String}
    (hparams : ∀ n ∈ params, σ n = n) (word : String) (line line' : Nat) (span span' : Text.Span) :
    Renames σ
      (u.node params (.tag ⟨word, args, line, span⟩ content))
      (u'.node params (.tag ⟨word, args', line', span'⟩ content')) := by
  rw [node, node, htags]
  dsimp only
  -- arguments that do not go with the word are errors on both sides
  cases u.tags.find? word with
  | none => exact .error rfl
  | some kind =>
    cases hargs with
    | @definition ps ps' name hps =>
      cases kind with
      | definition =>
        obtain ⟨hnames, hfixed⟩ := Parameter.names_renamed hps
        have hinner := List.forall_mem_append.2 ⟨hfixed, hparams⟩
        dsimp only
        rw [hnames]
        exact (hcontent hinner).bind fun hbody => .ok (.define (.context name)
          (params_renamed hinner name (σ name) hps) (List.forall_mem_map.2 fun p hp =>
            hfixed _ (List.mem_map.2 ⟨p, hp, rfl⟩)) hbody (.nil _))
      | _ => exact .error rfl
    | callBlock source source' he =>
      cases kind with
      | callBlock =>
        exact (hcontent hparams).bind fun hbody =>
          .ok (.callBlock source source' hbody (resolve_renamed hparams he) (.nil _))
      | _ => exact .error rfl
    | importAll path handle withContext =>
      cases kind with
      | importAll =>
        exact importAll_renamed hσ hscoped himported (havoids path rfl) handle withContext
      | _ => exact .error rfl
    | importNames hfixed =>
      cases kind with
      | importNames =>
        exact importNames_renamed hσ hscoped himported (havoids _ rfl) hfixed _ _
      | _ => exact .error rfl

/-- Nodes with other names compile alike. -/
lemma nodes_renamed {ns ns' : List Node} (h : Node.Renamed σ ns ns')
    (havoids : ∀ path ∈ allPaths ns, u.Avoids names path) {params : List String}
    (hparams : ∀ n ∈ params, σ n = n) : Renames σ
      (u.nodes params ns) (u'.nodes params ns') := by
  induction h generalizing params with
  | nil => exact .ok (.nil _)
  | text s _ ih => exact tally_cons (.ok (.text s (.nil _))) (ih havoids hparams) .append
  | output he _ ih =>
    exact tally_cons (.ok (.output (resolve_renamed hparams he) (.nil _))) (ih havoids hparams)
      .append
  | tag word line line' span span' hargs _ _ ihcontent ih =>
    rw [allPaths, Node.paths, List.forall_mem_append, List.forall_mem_append] at havoids
    obtain ⟨⟨hpath, hcontent⟩, hrest⟩ := havoids
    exact tally_cons (tag_renamed hσ hscoped himported htags hargs (ihcontent hcontent)
      (fun path hmem => hpath path (Option.mem_toList.2 hmem)) hparams word line line' span span')
      (ih hrest hparams) .append

end FileScope

/-! ### Pages with other names -/

namespace Compiler

variable {c : Compiler} {page : SourceFile}

/-- The code of an imported file is compiled code. -/
lemma scoped_of_imported {path file : String} {fs : List Fragment}
    (h : (c.scope page).imported path = .ok (file, fs)) :
    ∀ f ∈ fs, ∀ i ∈ f.code, i.Scoped file [] :=
  List.forall_mem_flatMap.1 (fragments_induction (P := fun _ file is => ∀ i ∈ is, i.Scoped file [])
    (fun _ himported h => h.scoped himported) c.room [page.name] path file fs h)

lemma compile_of_error {ns : List Node} {e : Error} (hnodes : c.nodes page = .ok ns)
    (he : (c.scope page).nodes [] ns = .error e) : c.compile page = .error e := by
  rw [compile, hnodes]
  show c.program page ns = _
  rw [program]
  show ((c.scope page).nodes [] ns >>= _) = _
  rw [he]
  rfl

end Compiler

/-- What a template puts out is what its program does. -/
lemma Cli.renderWith_eq (context : Context) (p : Program) : renderWith context p =
    ((Renderer.render p).outcome (.start context 0)).mapError .render := by
  rw [renderWith, Run.outcome]
  cases Renderer.render p (.start context 0) <;> rfl

/-! ### An example -/

namespace Capture

/-- A page that is like `Greeting.whole` but for the name of the import:
`{% import "lib" as v %}{{ v.hi(name) }}`. -/
def page : String :=
  "\x7b% import \"lib\" as v %\x7d\x7b\x7b v.hi(name) \x7d\x7d"

/-- A file with a macro that has a parameter `w` and calls another one:
`{% macro hi(w) %}{{ b() }}{% endmacro %}{% macro b() %}B{% endmacro %}`. -/
def library : String :=
  "\x7b% macro hi(w) %\x7d\x7b\x7b b() \x7d\x7d\x7b% endmacro %\x7d" ++
    "\x7b% macro b() %\x7dB\x7b% endmacro %\x7d"

/-- That file can be imported from the file called `lib`. -/
def compiler : Compiler where
  tags := .standard
  library := ⟨fun name => if name = "lib" then some library else none, fun _ => none⟩
  maxDepth := 2

/-- The library does not matter to reading a page. -/
lemma nodes_eq (page : SourceFile) : Greeting.compiler.nodes page = compiler.nodes page := by
  rw [Compiler.nodes, Compiler.nodes]
  rfl

/-- The nodes of the page with the import under a name. -/
def nodes (handle source : String) : List Node :=
  [.tag ⟨"import", .importAll ⟨"lib", handle, false⟩, 1, ⟨0, 23⟩⟩ [],
    Greeting.call (.member (.var handle) "hi") source 23 39]

/-- The nodes of the file. -/
def definitions : List Node :=
  [.tag ⟨"macro", .definition ⟨"hi", [⟨"w", none⟩]⟩, 1, ⟨0, 40⟩⟩
      [.output ⟨.call (.var "b") [] [], "b()", 1, ⟨17, 26⟩⟩],
    .tag ⟨"macro", .definition ⟨"b", []⟩, 1, ⟨40, 70⟩⟩ [.text "B"]]

lemma page_read : compiler.nodes ⟨"page", page⟩ = .ok (nodes "v" "v.hi(name)") := by
  have hread : Node.ofSource .standard page = .ok (nodes "v" "v.hi(name)") := by
    refine Node.ofSource_of [⟨.tag, " import \"lib\" as v ".toList, 0, 1⟩,
      ⟨.output, " v.hi(name) ".toList, 23, 1⟩] (by decide +kernel) ?_
    rw [Builder.foldlM_add (Builder.add_tag ⟨rfl, by cbv, by cbv, by cbv, by cbv⟩ .importAll
        [⟨.blank, " ", ⟨9, 10⟩, 1⟩, ⟨.string, "\"lib\"", ⟨10, 15⟩, 1⟩, ⟨.blank, " ", ⟨15, 16⟩, 1⟩,
          ⟨.path, "as", ⟨16, 18⟩, 1⟩, ⟨.blank, " ", ⟨18, 19⟩, 1⟩, ⟨.path, "v", ⟨19, 20⟩, 1⟩,
          ⟨.blank, " ", ⟨20, 21⟩, 1⟩]
        (.importAll ⟨"lib", "v", false⟩) (by cbv) (by cbv) (by decide +kernel) (by cbv)),
      Builder.foldlM_add (Builder.add_output
        [⟨.blank, " ", ⟨25, 26⟩, 1⟩, ⟨.call, "v.hi", ⟨26, 31⟩, 1⟩, ⟨.path, "name", ⟨31, 35⟩, 1⟩,
          ⟨.parenClose, ")", ⟨35, 36⟩, 1⟩, ⟨.blank, " ", ⟨36, 37⟩, 1⟩]
        (.call (.member (.var "v") "hi") [.var "name"] []) rfl (by cbv) (by decide +kernel)
        (by cbv))]
    rfl
  show (Node.ofSource .standard page).mapError _ = _
  rw [hread]
  rfl

lemma library_read : compiler.nodes ⟨"lib", library⟩ = .ok definitions := by
  have hread : Node.ofSource .standard library = .ok definitions := by
    refine Node.ofSource_of [⟨.tag, " macro hi(w) ".toList, 0, 1⟩,
      ⟨.output, " b() ".toList, 17, 1⟩, ⟨.tag, " endmacro ".toList, 26, 1⟩,
      ⟨.tag, " macro b() ".toList, 40, 1⟩, ⟨.text, "B".toList, 55, 1⟩,
      ⟨.tag, " endmacro ".toList, 56, 1⟩] (by decide +kernel) ?_
    rw [Builder.foldlM_add (Builder.add_tag ⟨rfl, by cbv, by cbv, by cbv, by cbv⟩ .definition
        [⟨.blank, " ", ⟨8, 9⟩, 1⟩, ⟨.call, "hi", ⟨9, 12⟩, 1⟩, ⟨.path, "w", ⟨12, 13⟩, 1⟩,
          ⟨.parenClose, ")", ⟨13, 14⟩, 1⟩, ⟨.blank, " ", ⟨14, 15⟩, 1⟩]
        (.definition ⟨"hi", [⟨"w", none⟩]⟩) (by cbv) (by cbv) (by decide +kernel) (by cbv)),
      Builder.foldlM_add (Builder.add_output
        [⟨.blank, " ", ⟨19, 20⟩, 1⟩, ⟨.emptyCall, "b", ⟨20, 23⟩, 1⟩, ⟨.blank, " ", ⟨23, 24⟩, 1⟩]
        (.call (.var "b") [] []) rfl (by cbv) (by decide +kernel) (by cbv)),
      Builder.foldlM_add (Builder.add_end ⟨rfl, by cbv, by cbv, by cbv, by cbv⟩ (by cbv) (by cbv)
        rfl rfl),
      Builder.foldlM_add (Builder.add_tag ⟨rfl, by cbv, by cbv, by cbv, by cbv⟩ .definition
        [⟨.blank, " ", ⟨48, 49⟩, 1⟩, ⟨.emptyCall, "b", ⟨49, 52⟩, 1⟩, ⟨.blank, " ", ⟨52, 53⟩, 1⟩]
        (.definition ⟨"b", []⟩) (by cbv) (by cbv) (by decide +kernel) (by cbv)),
      Builder.foldlM_add (Builder.add_text rfl),
      Builder.foldlM_add (Builder.add_end ⟨rfl, by cbv, by cbv, by cbv, by cbv⟩ (by cbv) (by cbv)
        rfl rfl)]
    rfl
  show (Node.ofSource .standard library).mapError _ = _
  rw [hread]
  rfl

lemma library_loaded : compiler.load (some "page") "lib" = .ok ⟨"lib", library⟩ := by
  have hname : Path.join (some "page") "lib" = "lib" := by cbv
  rw [Compiler.load, hname]
  rfl

/-- What the definitions compile to. -/
def compiled : List Macro :=
  [⟨"hi", [⟨"w", none⟩], [.output (.call (.context "b") [] [])], ""⟩,
    ⟨"b", [], [.text "B"], ""⟩]

lemma fragments_definitions {u : FileScope} (hu : u.tags = .standard) :
    u.fragments definitions = .ok (compiled.map (Macro.fragment u.file.name)) := by
  obtain ⟨tags, file, imported⟩ := u
  obtain rfl : tags = .standard := hu
  rfl

/-- What the page with the import under a name compiles to. -/
def instrs (handle : String) : List Instr :=
  [.bindSpace handle
      [.define (.member handle "hi") ⟨"hi", [⟨"w", none⟩],
          [.output (.call (.member (.context handle) "b") [] [])], "lib"⟩,
        .define (.member handle "b") ⟨"b", [], [.text "B"], "lib"⟩] [],
    .output (.call (.member (.context handle) "hi") [.context "name"] [])]

/-- Which name that is does not matter to compiling. -/
lemma page_compiled {text handle source : String}
    (hread : compiler.nodes ⟨"page", text⟩ = .ok (nodes handle source)) :
    compiler.compile ⟨"page", text⟩ = .ok ⟨"page", instrs handle⟩ := by
  let u := compiler.scope ⟨"page", text⟩
  have himported : u.imported "lib" = .ok ("lib", compiled.map (Macro.fragment "lib")) :=
    Compiler.imported_eq (by decide) library_loaded (show "lib" ≠ "page" by decide) library_read
      fun _ hu => fragments_definitions hu
  have hlegible : TagHead.Legible u.tags
      ⟨"import", .importAll ⟨"lib", handle, false⟩, 1, ⟨0, 23⟩⟩ := ⟨.importAll, rfl, .importAll _⟩
  exact Compiler.compile_of_nodes hread (FileScope.nodes_append
    (FileScope.nodes_singleton (FileScope.node_importAll hlegible rfl himported))
    (FileScope.nodes_output u _))

/-- The pages differ in the name of the import. -/
lemma nodes_renamed {handle handle' : String} (h : "name" ≠ handle) (h' : "name" ≠ handle')
    (source source' : String) :
    Node.Renamed (Equiv.swap handle handle') (nodes handle source) (nodes handle' source') := by
  let σ := Equiv.swap handle handle'
  have himport := TagArgs.Renamed.importAll (σ := σ) "lib" handle false
  have hcallee := Expr.VarRenamed.var (σ := σ) handle
  have hname := Expr.VarRenamed.var (σ := σ) "name"
  rw [Equiv.swap_apply_left] at himport hcallee
  rw [Equiv.swap_apply_of_ne_of_ne h h'] at hname
  exact .tag "import" 1 1 _ _ himport .nil (.output (.call (.member "hi" (.reference hcallee))
    (.cons (.reference hname) .nil) .nil) .nil)

lemma library_compiled : compiler.compile ⟨"lib", library⟩ =
    .ok ⟨"lib", compiled.map (Macro.definition "lib")⟩ := by
  have hfs := fragments_definitions (u := compiler.scope ⟨"lib", library⟩) rfl
  exact Compiler.compile_of_nodes library_read (FileScope.nodes_of_fragments hfs)

end Capture

/-! ### The name of an import -/

/-- **The name of an import is immaterial.** Two pages that differ in two names put out the same, or
fail in the same phase, if neither name is an entry of the data or one that calls set, and if the
files that the pages import avoid both. -/
theorem renaming_preserves_output {c : Compiler} {page page' : SourceFile}
    (hpage : page'.name = page.name) {ns ns' : List Node} (hns : c.nodes page = .ok ns)
    (hns' : c.nodes page' = .ok ns') {handle handle' : String}
    (hrenamed : Node.Renamed (Equiv.swap handle handle') ns ns')
    (havoids : ∀ path ∈ allPaths ns, (c.scope page).Avoids [handle, handle'] path)
    (hcalls : ∀ n ∈ [callerName, kwargsName], n ∉ [handle, handle']) {data : Json}
    {context : Context} (hdata : Context.ofJson data = .ok context)
    (hentries : ∀ n, (context.get? n).isSome → n ∉ [handle, handle']) :
    SameResult (c.output page context) (c.output page' context) := by
  have hσ : ∀ n, n ∉ [handle, handle'] → Equiv.swap handle handle' n = n := fun n hn =>
    Equiv.swap_apply_of_ne_of_ne (List.ne_of_not_mem_cons hn)
      (List.ne_of_not_mem_cons (List.not_mem_of_not_mem_cons hn))
  have himported : (c.scope page').imported = (c.scope page).imported := by
    show c.fragments c.room [page'.name] = c.fragments c.room [page.name]
    rw [hpage]
  have hnone : ∀ n ∈ ([] : List String), Equiv.swap handle handle' n = n := fun _ hn => nomatch hn
  have halike := FileScope.nodes_renamed hσ (fun _ _ _ => Compiler.scoped_of_imported) himported rfl
    hrenamed havoids hnone
  generalize his : (c.scope page).nodes [] ns = r at halike
  generalize his' : (c.scope page').nodes [] ns' = r' at halike
  cases halike with
  | error hkind =>
    rw [Compiler.output, Compiler.output, Compiler.compile_of_error hns his,
      Compiler.compile_of_error hns' his']
    exact .error hkind
  | ok hcode =>
    rw [List.forall_mem_cons, List.forall_mem_singleton] at hcalls
    have hlawful := Translation.permuting_lawful (hσ _ hcalls.1) (hσ _ hcalls.2)
    have hstart := Translation.Agree.start hdata (T := .permuting (Equiv.swap handle handle'))
      (fun k hk => hσ k (hentries k hk)) 0
    have hmatches :=
      hlawful.exec_sim (hlawful.invoke_sim maxCallDepth) hcode trivial .nil _ _ hstart
    exact sameResult_of_matches (Compiler.compile_of_nodes hns his)
      (Compiler.compile_of_nodes hns' his') (hmatches.mono (fun _ _ h => h) fun _ _ _ => trivial)

open Greeting in
/-- The pages of the example with the file that has no parameter called like one of the imports. -/
theorem greeting_renamed :
    compiler.output ⟨"page", whole⟩ context = .ok "Hi <Ada>" ∧
      SameResult (compiler.output ⟨"page", whole⟩ context)
        (compiler.output ⟨"page", Capture.page⟩ context) := by
  have hrender : (Renderer.render program).outcome (.start context 0) = .ok "Hi <Ada>" := rfl
  have hpage : compiler.nodes ⟨"page", Capture.page⟩ = .ok (Capture.nodes "v" "v.hi(name)") := by
    rw [Capture.nodes_eq, Capture.page_read]
  refine ⟨?_, @renaming_preserves_output compiler ⟨"page", whole⟩ ⟨"page", Capture.page⟩ rfl _ _
    whole_read hpage "w" "v" (Capture.nodes_renamed (by decide) (by decide) _ _)
    (fun path hpath => ?_) (by decide) _ _ data_read fun n hn => ?_⟩
  · rw [Compiler.output, whole_compiled]
    show Cli.renderWith context program = _
    rw [Cli.renderWith_eq, hrender]
    rfl
  · obtain rfl : path = "lib" := List.mem_singleton.1 hpath
    intro file fragments hload
    rw [library_imported] at hload
    cases hload
    refine List.forall_mem_map.2 (List.forall_mem_cons.2 ⟨?_, List.forall_mem_singleton.2 ?_⟩)
    · exact .definition (by decide) (by decide)
    · exact .definition (by decide) (by decide)
  · intro hmem
    rcases List.mem_pair.1 hmem with rfl | rfl
    · exact absurd hn (by decide)
    · exact absurd hn (by decide)

open Greeting in
/-- A name that the imported file does not read may matter nevertheless: where the macro that is
called has a parameter `w`, the page that imports the file as `w` does not put out what the page
does that imports it as `v`. -/
theorem handle_captured :
    (∃ ns ns', Capture.compiler.nodes ⟨"page", whole⟩ = .ok ns ∧
      Capture.compiler.nodes ⟨"page", Capture.page⟩ = .ok ns' ∧
      Node.Renamed (Equiv.swap "w" "v") ns ns') ∧
    (∃ p, Capture.compiler.compile ⟨"lib", Capture.library⟩ = .ok p ∧
      ∀ n ∈ entriesRead (allReferences p.instrs), n ∉ ["w", "v"]) ∧
    Capture.compiler.output ⟨"page", whole⟩ context = .ok "" ∧
    Capture.compiler.output ⟨"page", Capture.page⟩ context = .ok "B" := by
  have hwhole : Capture.compiler.nodes ⟨"page", whole⟩ = .ok (Capture.nodes "w" "w.hi(name)") := by
    rw [← Capture.nodes_eq]
    exact whole_read
  refine ⟨⟨_, _, hwhole, Capture.page_read, Capture.nodes_renamed (by decide) (by decide) _ _⟩,
    ⟨_, Capture.library_compiled, by decide⟩, ?_, ?_⟩
  · rw [Compiler.output, Capture.page_compiled hwhole]
    rfl
  · rw [Compiler.output, Capture.page_compiled Capture.page_read]
    rfl

end Stencil
