import Stencil.Proofs.Abstraction.Nodes
import Stencil.Proofs.Abstraction.Simulation
import Stencil.Proofs.Renaming

/-!
Compiling before and after an abstraction. Compiling **tallies** if it gives related code or fails
with the same error (`Tally`). It does for pages of which one has pieces handed to passing macros in
the other, if the rest mentions nothing hidden: inside of tags the code corresponds as code that
defines nothing (`FileScope.tally_plain`), and at the top level as code that may define macros
(`FileScope.tally_topLevel`).

What a page imports is the same on both sides, and corresponds to itself (`Abstraction.Shared`,
`Compiler.shared_of_imported`), if no file that the page **involves** mentions anything hidden
(`Compiler.Involves`, `Compiler.Spares`). The replacement of references that importing comes with
does not disturb this, since no macro of such a file is called like a hidden entry
(`Abstraction.Relinks`).
-/

namespace Stencil

namespace Abstraction

variable {A : Abstraction}

/-! ### Linking -/

/-- Replacing references brings nothing hidden into the code and leaves what is hidden alone. -/
structure Relinks (A : Abstraction) (f : Expr → Option Expr) : Prop where
  moves : Expr.Moves f
  hidden : ∀ {name}, A.hidden name → f (.context name) = none
  moved : ∀ {name e}, f (.context name) = some e → Expr.Rel A.Ref e e

section Replace

variable {f : Expr → Option Expr} (hf : A.Relinks f)

include hf

lemma Relinks.rel_replace {e e' : Expr} (h : Expr.Rel A.Ref e e') :
    Expr.Rel A.Ref (e.replace f) (e'.replace f) := by
  refine h.replaceBoth ⟨hf.moves.relinked, hf.moves.relinked, fun hr => ?_⟩
  cases hr with
  | param name =>
    rw [Expr.replace, hf.moves.other (by simp)]
    exact .reference (.param name)
  | symbol key =>
    rw [Expr.replace, hf.moves.other (by simp)]
    exact .reference (.symbol key)
  | @context name hn =>
    cases he : f (.context name) with
    | none =>
      rw [Expr.replace, he]
      exact .reference (.context hn)
    | some e =>
      rw [Expr.replace_of_some he]
      exact hf.moved he

/-- Replacing references on both sides keeps code in correspondence. -/
lemma Relinks.code (hA : A.Lawful) {is is' : List Instr} (h : A.Code is is') :
    A.Code (replaceAll f is) (replaceAll f is') := by
  induction h with
  | nil => exact .nil
  | text s => exact .text s
  | output he => exact .output (hf.rel_replace he)
  | callBlock source source' _ he ih => exact .callBlock source source' ih (hf.rel_replace he)
  | @handed name body body' source hname _ ih =>
    have hcallee : (Expr.context name).replace f = .context name := by
      rw [Expr.replace, hf.hidden (hA.passing hname)]
    have hcall : (Expr.call (.context name) [] []).replace f = .call (.context name) [] [] := by
      rw [Expr.replace, hf.moves.other (by simp), hcallee]
      rfl
    show A.Code _ [.callBlock _ ((Expr.call (.context name) [] []).replace f) source]
    rw [hcall]
    exact .handed source hname ih
  | append _ _ ih ih' =>
    rw [replaceAll_append, replaceAll_append]
    exact ih.append ih'

/-- So it does macros. -/
lemma Relinks.macros (hA : A.Lawful) {m m' : Macro} (h : A.Macros m m') :
    A.Macros (m.replace f) (m'.replace f) := by
  obtain ⟨name, ps, body, file⟩ := m
  obtain ⟨name', ps', body', file'⟩ := m'
  refine ⟨?_, List.forall_mem_map.2 h.free, hf.code hA h.body⟩
  refine List.forall₂_map_left_iff.2 (List.forall₂_map_right_iff.2 (h.params.imp fun p p' hp =>
    ⟨hp.name, ?_⟩))
  have hdefault := hp.default
  show Option.Rel (Expr.Rel A.Ref) (p.default.map _) (p'.default.map _)
  generalize p.default = d at hdefault ⊢
  generalize p'.default = d' at hdefault ⊢
  cases hdefault with
  | none => exact .none
  | some he => exact .some (hf.rel_replace he)

end Replace

/-- A piece of an imported file that corresponds to itself. -/
inductive Shared (A : Abstraction) : Fragment → Prop
  | imported {is : List Instr} : A.TopLevel is is → Shared A (.imported is)
  | definition {m : Macro} : ¬ A.hidden m.name → A.Macros m m →
      Shared A (.definition m.name [.define (.context m.name) m])
  | markup {is : List Instr} : A.Code is is → Shared A (.markup is)

section Fragments

variable {fragments : List Fragment} (h : ∀ f ∈ fragments, A.Shared f)

include h

/-- No macro of a file that is shared is called like a hidden entry. -/
lemma not_hidden_of_has {file name : String}
    (hname : (Exports.ofFragments file fragments).has name = true) : ¬ A.hidden name := by
  obtain ⟨is, hmem⟩ := Exports.has_ofFragments.1 hname
  cases h _ hmem with
  | definition hfree _ => exact hfree

/-- What an import of a shared file binds corresponds to itself. -/
lemma topLevel_bound (hA : A.Lawful) {x : Exports}
    (hhas : ∀ own is, .definition own is ∈ fragments → x.has own = true)
    {f : Expr → Option Expr} (hf : A.Relinks f) {target : String → Binding}
    (htarget : ∀ {n}, ¬ A.hidden n → ∀ k ∈ (target n).root?, ¬ A.hidden k) :
    A.TopLevel
      (fragments.flatMap (Fragment.bound fun is => replaceAll f (is.map (x.rebind target))))
      (fragments.flatMap (Fragment.bound fun is => replaceAll f (is.map (x.rebind target)))) := by
  induction fragments with
  | nil => exact .flat .nil
  | cons fragment rest ih =>
    rw [List.forall_mem_cons] at h
    rw [List.flatMap_cons]
    refine .append ?_ (ih h.2 fun own is hmem => hhas own is (List.mem_cons_of_mem _ hmem))
    cases h.1 with
    | imported his => exact his
    | markup _ => exact .flat .nil
    | @definition m hfree hm =>
      rw [Fragment.bound, List.map_singleton, Exports.rebind, if_pos (hhas _ _ List.mem_cons_self)]
      exact .define (htarget hfree) (hf.macros hA hm)

/-- What a shared file shows corresponds to itself. -/
lemma code_markups : A.Code (Fragment.markups fragments) (Fragment.markups fragments) := by
  induction fragments with
  | nil => exact .nil
  | cons fragment rest ih =>
    rw [List.forall_mem_cons] at h
    cases h.1 with
    | imported _ => exact ih h.2
    | definition _ _ => exact ih h.2
    | markup his => exact his.append (ih h.2)

lemma topLevel_members (hA : A.Lawful) (file : String) {handle : String}
    (hhandle : ¬ A.hidden handle) :
    A.TopLevel ((Exports.ofFragments file fragments).members handle fragments)
      ((Exports.ofFragments file fragments).members handle fragments) := by
  let x := Exports.ofFragments file fragments
  rw [x.members_eq_flatMap]
  refine topLevel_bound h hA (fun _ is his => Exports.has_ofFragments.2 ⟨is, his⟩)
    ⟨x.moves_memberOf handle, fun hname => ?_, fun he => ?_⟩ fun _ k hk => ?_
  · rw [Exports.memberOf, if_neg fun hhas => not_hidden_of_has h hhas hname]
  · rw [Exports.memberOf] at he
    split at he
    · cases he
      exact .member _ (.reference (.context hhandle))
    · cases he
  · cases hk
    exact hhandle

lemma topLevel_pick (hA : A.Lawful) (file : String) (selected : List String) :
    A.TopLevel ((Exports.ofFragments file fragments).pick selected fragments)
      ((Exports.ofFragments file fragments).pick selected fragments) := by
  let x := Exports.ofFragments file fragments
  rw [x.pick_eq_flatMap]
  refine topLevel_bound h hA (fun _ is his => Exports.has_ofFragments.2 ⟨is, his⟩)
    ⟨x.moves_symbolOf selected, fun {name} hname => ?_, fun he => ?_⟩ fun {n} hn k hk => ?_
  · have hhas : ¬ x.has name = true := fun hhas => not_hidden_of_has h hhas hname
    rw [Exports.symbolOf, if_neg (by simp [hhas])]
  · rw [Exports.symbolOf] at he
    split at he
    · cases he
      exact .reference (.symbol _)
    · cases he
  · rw [Exports.selectedBinding] at hk
    split at hk
    · cases hk
      exact hn
    · cases hk

end Fragments

end Abstraction

/-! ### Compiling -/

namespace FileScope

variable {A : Abstraction} {u : FileScope} {params : List String} {name : String}

/-- What does not mention anything hidden refers to nothing hidden. -/
lemma rel_resolve {e : Expr} (he : e.IsSource) (hnames : ∀ x ∈ e.vars, ¬ A.hidden x) :
    Expr.Rel A.Ref (resolve params e) (resolve params e) := by
  refine Expr.rel_resolve he fun x hx => ?_
  rw [Resolves]
  split
  · exact .param x
  · exact .context (hnames x hx)

lemma rel_params {sig : Signature} (hsig : sig.IsSource) (hnames : ∀ x ∈ sig.vars, ¬ A.hidden x) :
    List.Forall₂ (Param.Rel A.Ref) (FileScope.params params sig) (FileScope.params params sig) := by
  refine List.forall₂_map_left_iff.2 (List.forall₂_map_right_iff.2
    (List.forall₂_same.2 fun p hp => ⟨rfl, ?_⟩))
  cases hd : p.default with
  | none => exact .none
  | some d =>
    refine .some (rel_resolve (hsig p hp d hd) fun x hx => hnames x ?_)
    exact List.mem_flatMap.2 ⟨p, hp, by simpa [hd] using hx⟩

/-- Macros with the same signature correspond if their bodies do. -/
lemma macros_of_body {sig : Signature} (hsig : sig.IsSource)
    (hparams : ∀ x ∈ sig.params.map (·.name), ¬ A.hidden x) (hvars : ∀ x ∈ sig.vars, ¬ A.hidden x)
    {body body' : List Instr} (hbody : A.Code body body') (file : String) :
    A.Macros ⟨sig.name, FileScope.params params sig, body, file⟩
      ⟨sig.name, FileScope.params params sig, body', file⟩ :=
  ⟨rel_params hsig hvars,
    List.forall_mem_map.2 fun p hp => hparams _ (List.mem_map.2 ⟨p, hp, rfl⟩), hbody⟩

section Nodes

variable {R : List Instr → List Instr → Prop} {n n' : Node} {ns ns' : List Node} {head : TagHead}
  {content : List Node}

lemma node_definition {sig : Signature} (hkind : u.tags.find? head.name = some .definition)
    (hargs : head.args = .definition sig) :
    u.node params (.tag head content) =
      u.nodes (sig.params.map (·.name) ++ params) content >>= fun body =>
        .ok [.define (.context sig.name) ⟨sig.name,
          FileScope.params (sig.params.map (·.name) ++ params) sig, body, u.file.name⟩] := by
  rw [node, hkind]
  dsimp only
  rw [hargs]
  rfl

lemma node_callBlock {e : Expr} {source : String}
    (hkind : u.tags.find? head.name = some .callBlock) (hargs : head.args = .callBlock e source) :
    u.node params (.tag head content) = u.nodes params content >>= fun body =>
      .ok [.callBlock body (resolve params e) source] := by
  rw [node, hkind]
  dsimp only
  rw [hargs]
  rfl

/-- The call of a macro that is no parameter. -/
lemma resolve_call (hname : name ∉ params) :
    resolve params (.call (.var name) [] []) = .call (.context name) [] [] := by
  have hvar : resolve params (.var name) = .context name := if_neg (by simpa using hname)
  show Expr.call (resolve params (.var name)) [] [] = _
  rw [hvar]

/-- The call block of a passing macro. -/
lemma node_handed {source : String} {line : Nat} {span : Text.Span}
    (hcall : u.tags.has .callBlock = true) (hname : name ∉ params) :
    u.node params (Node.handed name source line span content) =
      u.nodes params content >>= fun body =>
        .ok [.callBlock body (.call (.context name) [] []) source] := by
  rw [← resolve_call hname]
  exact node_callBlock (TagSet.find?_name hcall) rfl

/-- A piece handed to a passing macro compiles to its code handed to it. -/
lemma tally_handed (source : String) (line : Nat) (span : Text.Span) {piece piece' : List Node}
    (hcall : u.tags.has .callBlock = true) (hname : A.passing name) (hfree : name ∉ params)
    (h : Tally Eq A.Code (u.nodes params piece) (u.nodes params piece')) :
    Tally Eq A.Code (u.nodes params piece)
      (u.nodes params [Node.handed name source line span piece']) := by
  rw [nodes, node_handed hcall hfree, nodes, bind_assoc]
  exact h.map_right fun hbody => Abstraction.Code.handed source hname hbody

/-- The definition of a macro without parameters. -/
lemma node_defined {line : Nat} {span : Text.Span}
    (hdefinition : u.tags.has .definition = true) :
    u.node [] (Node.defined name line span content) = u.nodes [] content >>= fun body =>
      .ok [.define (.context name) ⟨name, [], body, u.file.name⟩] := by
  have hkind := TagSet.find?_name hdefinition
  rw [Node.defined, node_definition hkind rfl]
  rfl

end Nodes

section Tally

variable {ns ns' : List Node} (hA : A.Lawful) (hcall : u.tags.has .callBlock = true)
  (h : Node.Handed A.passing ns ns') (hlegible : ∀ n ∈ ns, n.Legible u.tags)
  (hnames : ∀ x ∈ Node.allNames ns, ¬ A.hidden x)

include hA hcall h hlegible hnames

/-- Nodes without definitions, pieces of which have been handed to passing macros, compile alike. -/
lemma tally_plain (hplain : ∀ n ∈ ns, n.Plain) (hparams : ∀ x ∈ params, ¬ A.hidden x) :
    Tally Eq A.Code (u.nodes params ns) (u.nodes params ns') := by
  induction h generalizing params with
  | nil => exact .ok .nil
  | text s _ ih =>
    rw [List.forall_mem_cons] at hlegible hplain
    exact tally_cons (.ok (.text s)) (ih hlegible.2 hnames hplain.2 hparams) .append
  | output o _ ih =>
    rw [List.forall_mem_cons] at hlegible hplain
    rw [Node.allNames, List.forall_mem_append] at hnames
    obtain _ | ho := hlegible.1
    exact tally_cons (.ok (.output (rel_resolve ho hnames.1)))
      (ih hlegible.2 hnames.2 hplain.2 hparams) .append
  | tag head _ _ ihcontent ih =>
    rw [List.forall_mem_cons] at hlegible hplain
    rw [Node.allNames, List.forall_mem_append, Node.names, List.forall_mem_append,
      List.forall_mem_append] at hnames
    refine tally_cons ?_ (ih hlegible.2 hnames.2 hplain.2 hparams) .append
    obtain _ | _ | ⟨hword, hcontent⟩ := hplain.1
    obtain _ | _ | ⟨⟨kind, hkind, hsays⟩, hcontentLegible⟩ := hlegible.1
    -- the only plain tags are call blocks
    rw [hword] at hkind
    cases TagSet.find?_callBlock hkind
    rw [← hword] at hkind
    have hinside := ihcontent hcontentLegible hnames.1.2 hcontent hparams
    generalize hargs : head.args = args at hsays hnames
    obtain _ | ⟨source, he⟩ := hsays
    rw [node_callBlock hkind hargs, node_callBlock hkind hargs]
    exact hinside.bind fun hbody =>
      .ok (.callBlock source source hbody (rel_resolve he hnames.1.1.2))
  | @piece name source line span piece piece' ns ns' hname _ _ _ ihpiece ih =>
    rw [List.forall_mem_append] at hlegible hplain
    rw [Node.allNames_append, List.forall_mem_append] at hnames
    have hfree : name ∉ params := fun hmem => hparams name hmem (hA.passing hname)
    have hinside := ihpiece hlegible.1 hnames.1 hplain.1 hparams
    have hrest := ih hlegible.2 hnames.2 hplain.2 hparams
    exact tally_append (tally_handed source line span hcall hname hfree hinside) hrest .append

omit h in
/-- Nodes without definitions compile to code that corresponds to itself. -/
lemma code_of_plain (hplain : ∀ n ∈ ns, n.Plain) (hparams : ∀ x ∈ params, ¬ A.hidden x)
    {is : List Instr} (hn : u.nodes params ns = .ok is) : A.Code is is := by
  have hself := tally_plain hA hcall (.refl ns) hlegible hnames hplain hparams
  rw [hn] at hself
  exact hself.of_ok

end Tally

/-- The file that the path refers to, if it can be imported, corresponds to itself. -/
def Shares (A : Abstraction) (u : FileScope) (path : String) : Prop :=
  ∀ name fragments, u.imported path = .ok (name, fragments) → ∀ f ∈ fragments, A.Shared f

section TopLevel

variable {ns ns' : List Node} (hA : A.Lawful)

include hA

/-- Importing a file under a name corresponds to itself. -/
lemma tally_importAll {h : ImportAll} (hpath : u.Shares A h.path) (hhandle : ¬ A.hidden h.handle) :
    Tally Eq A.TopLevel (u.importAll h) (u.importAll h) := by
  rw [importAll]
  cases hload : u.imported h.path with
  | error e => exact .error rfl
  | ok loaded =>
    obtain ⟨file, fragments⟩ := loaded
    have hshared := hpath _ _ hload
    exact .ok (.bindSpace hhandle (Abstraction.topLevel_members hshared hA file hhandle)
      (Abstraction.code_markups hshared))

/-- So does importing macros by name. -/
lemma tally_importNames {h : ImportNames} (hpath : u.Shares A h.path) (head : TagHead) :
    Tally Eq A.TopLevel (u.importNames head h) (u.importNames head h) := by
  rw [importNames]
  cases hload : u.imported h.path with
  | error e => exact .error rfl
  | ok loaded =>
    obtain ⟨file, fragments⟩ := loaded
    simp only [bind, Except.bind]
    split
    · exact .error rfl
    · exact .ok (Abstraction.topLevel_pick (hpath _ _ hload) hA file h.names)

variable (hcall : u.tags.has .callBlock = true)

include hcall

/-- A tag at the top level compiles alike, if its content has no definitions and pieces of it have
been handed to passing macros. -/
lemma tally_tag {head : TagHead} {content content' : List Node}
    (h : Node.Handed A.passing content content') (hout : (Node.tag head content).Outermost)
    (hlegible : (Node.tag head content).Legible u.tags)
    (hnames : ∀ x ∈ (Node.tag head content).names, ¬ A.hidden x)
    (hpaths : ∀ path ∈ (Node.tag head content).paths, u.Shares A path) :
    Tally Eq A.TopLevel (u.node [] (.tag head content)) (u.node [] (.tag head content')) := by
  obtain _ | _ | ⟨⟨kind, hkind, hsays⟩, hcontent⟩ := hlegible
  rw [Node.names, List.forall_mem_append, List.forall_mem_append] at hnames
  rw [Node.paths, List.forall_mem_append] at hpaths
  obtain ⟨word, args, line, span⟩ := head
  have hinside {params : List String} (hparams : ∀ x ∈ params, ¬ A.hidden x) :=
    tally_plain hA hcall h hcontent hnames.2 hout hparams
  obtain ⟨⟨hbound, hvars⟩, _⟩ := hnames
  cases hsays with
  | @definition sig hsig =>
    rw [TagArgs.bound, List.forall_mem_cons] at hbound
    have hinner : ∀ x ∈ sig.params.map (·.name) ++ [], ¬ A.hidden x := by
      rw [List.append_nil]
      exact hbound.2
    rw [node_definition hkind rfl, node_definition hkind rfl]
    refine (hinside hinner).bind fun hbody =>
      .ok (.define ?_ (macros_of_body hsig hbound.2 hvars hbody _))
    rintro _ ⟨⟩
    exact hbound.1
  | callBlock source he =>
    rw [node_callBlock hkind rfl, node_callBlock hkind rfl]
    exact (hinside (List.forall_mem_nil _)).bind fun hbody =>
      .ok (.flat (.callBlock source source hbody (rel_resolve he hvars)))
  | importAll header =>
    rw [node, node, hkind]
    exact tally_importAll hA (hpaths.1 _ List.mem_cons_self) (hbound _ List.mem_cons_self)
  | importNames header =>
    rw [node, node, hkind]
    exact tally_importNames hA (hpaths.1 _ List.mem_cons_self) _

/-- **Pages compile alike** if pieces of one have been handed to passing macros in the other. -/
lemma tally_topLevel (h : Node.Handed A.passing ns ns') (hout : ∀ n ∈ ns, n.Outermost)
    (hlegible : ∀ n ∈ ns, n.Legible u.tags) (hnames : ∀ x ∈ Node.allNames ns, ¬ A.hidden x)
    (hpaths : ∀ path ∈ allPaths ns, u.Shares A path) :
    Tally Eq A.TopLevel (u.nodes [] ns) (u.nodes [] ns') := by
  induction h with
  | nil => exact .ok (.flat .nil)
  | text s _ ih =>
    rw [List.forall_mem_cons] at hlegible hout
    exact tally_cons (.ok (.flat (.text s))) (ih hout.2 hlegible.2 hnames hpaths) .append
  | output o _ ih =>
    rw [List.forall_mem_cons] at hlegible hout
    rw [Node.allNames, List.forall_mem_append] at hnames
    obtain _ | ho := hlegible.1
    exact tally_cons (.ok (.flat (.output (rel_resolve ho hnames.1))))
      (ih hout.2 hlegible.2 hnames.2 hpaths) .append
  | tag head hcontent _ _ ih =>
    rw [List.forall_mem_cons] at hlegible hout
    rw [Node.allNames, List.forall_mem_append] at hnames
    rw [allPaths, List.forall_mem_append] at hpaths
    exact tally_cons
      (tally_tag hA hcall hcontent hout.1 hlegible.1 hnames.1 hpaths.1)
      (ih hout.2 hlegible.2 hnames.2 hpaths.2) .append
  | @piece name source line span piece piece' ns ns' hname hplain hpiece _ _ ih =>
    rw [List.forall_mem_append] at hlegible hout
    rw [Node.allNames_append, List.forall_mem_append] at hnames
    rw [allPaths_append, List.forall_mem_append] at hpaths
    have hinside := tally_plain hA hcall hpiece hlegible.1 hnames.1 hplain
      (List.forall_mem_nil _)
    have hhanded := tally_handed source line span hcall hname List.not_mem_nil hinside
    exact tally_append (hhanded.mono .flat) (ih hout.2 hlegible.2 hnames.2 hpaths.2) .append

/-! ### Imported files -/

/-- The fragment of a node in which nothing hidden is mentioned is shared, if what the node imports
is. -/
lemma shared_of_fragment {n : Node} (hout : n.Outermost) (hlegible : n.Legible u.tags)
    (hnames : ∀ x ∈ n.names, ¬ A.hidden x) (hpaths : ∀ path ∈ n.paths, u.Shares A path)
    {f : Fragment} (hf : u.fragment n = .ok f) : A.Shared f := by
  rw [fragment] at hf
  obtain ⟨is, his, hf⟩ := ok_of_bind hf
  cases hf
  cases hlegible with
  | text s =>
    cases his
    exact .markup (.text s)
  | output ho =>
    cases his
    exact .markup (.output (rel_resolve ho hnames))
  | @tag head content hhead hcontent =>
    have htag : A.TopLevel is is := by
      have hself := tally_tag hA hcall (.refl content) hout (.tag hhead hcontent) hnames hpaths
      rw [his] at hself
      exact hself.of_ok
    obtain ⟨word, args, line, span⟩ := head
    obtain ⟨kind, hkind, hsays⟩ := hhead
    rw [Node.names, List.forall_mem_append, List.forall_mem_append] at hnames
    obtain ⟨⟨hbound, hvars⟩, hinner⟩ := hnames
    cases hsays with
    | importAll header => exact .imported htag
    | importNames header => exact .imported htag
    | callBlock source he =>
      rw [node_callBlock hkind rfl] at his
      obtain ⟨body, hbody, his⟩ := ok_of_bind his
      cases his
      have hcode := code_of_plain hA hcall hcontent hinner hout (List.forall_mem_nil _) hbody
      exact .markup (.callBlock source source hcode (rel_resolve he hvars))
    | @definition sig hsig =>
      rw [TagArgs.bound, List.forall_mem_cons] at hbound
      rw [node_definition hkind rfl, List.append_nil] at his
      obtain ⟨body, hbody, his⟩ := ok_of_bind his
      cases his
      have hcode := code_of_plain hA hcall hcontent hinner hout hbound.2 hbody
      exact .definition hbound.1 (macros_of_body hsig hbound.2 hvars hcode _)

lemma shared_of_fragments (hout : ∀ n ∈ ns, n.Outermost) (hlegible : ∀ n ∈ ns, n.Legible u.tags)
    (hnames : ∀ x ∈ Node.allNames ns, ¬ A.hidden x)
    (hpaths : ∀ path ∈ allPaths ns, u.Shares A path)
    {fs : List Fragment} (hfs : u.fragments ns = .ok fs) : ∀ f ∈ fs, A.Shared f := by
  induction ns generalizing fs with
  | nil =>
    cases hfs
    exact List.forall_mem_nil _
  | cons n rest ih =>
    rw [List.forall_mem_cons] at hout hlegible
    rw [Node.allNames, List.forall_mem_append] at hnames
    rw [allPaths, List.forall_mem_append] at hpaths
    rw [fragments] at hfs
    obtain ⟨f, hf, hfs⟩ := ok_of_bind hfs
    obtain ⟨more, hmore, hfs⟩ := ok_of_bind hfs
    cases hfs
    have hfirst := shared_of_fragment hA hcall hout.1 hlegible.1 hnames.1 hpaths.1 hf
    exact List.forall_mem_cons.2 ⟨hfirst, ih hout.2 hlegible.2 hnames.2 hpaths.2 hmore⟩

end TopLevel

end FileScope

namespace Compiler

variable {c : Compiler} {page : SourceFile} {A : Abstraction}

/-- Compiling the page takes the file: it is the page itself, or the page imports it, directly or by
way of other files. -/
def Involves (c : Compiler) (page file : SourceFile) : Prop :=
  Relation.ReflTransGen (c.Imports page) page.name file.name ∧
    c.text? page file.name = some file.text

lemma involves_self (c : Compiler) (page : SourceFile) : c.Involves page page :=
  ⟨.refl, if_pos rfl⟩

/-- A page that imports nothing involves itself only. -/
lemma eq_of_involves {file : SourceFile} {ns : List Node} (hns : c.nodes page = .ok ns)
    (hpaths : allPaths ns = []) (h : c.Involves page file) : file = page := by
  obtain ⟨hway, htext⟩ := h
  obtain hname | ⟨_, ⟨text, ms, hstored, hms, path, hpath, _⟩, _⟩ :=
    Relation.ReflTransGen.cases_head hway
  · rw [text?, if_pos hname.symm] at htext
    obtain ⟨name, text⟩ := file
    obtain rfl : page.name = name := hname
    cases htext
    rfl
  · rw [text?, if_pos rfl] at hstored
    cases hstored
    cases hns.symm.trans hms
    rw [hpaths] at hpath
    cases hpath

/-- The file, if it can be read, defines macros and imports files at the top level only, and does
not mention anything hidden. -/
def Spares (c : Compiler) (hidden : String → Prop) (file : SourceFile) : Prop :=
  ∀ ns, c.nodes file = .ok ns →
    (∀ n ∈ ns, n.Outermost) ∧ ∀ x ∈ Node.allNames ns, ¬ hidden x

/-- **Imported files correspond to themselves**, if no file that the page involves mentions anything
hidden. -/
lemma shared_of_imported (hA : A.Lawful) (hcall : c.tags.has .callBlock = true)
    (hspares : ∀ file, c.Involves page file → c.Spares A.hidden file) {room : Nat}
    {chain : List String} {importer path name : String} {fs : List Fragment}
    (hentry : page.name ∈ chain) (hlast : chain.getLast? = some importer)
    (hway : Relation.ReflTransGen (c.Imports page) page.name importer)
    (himports : c.Imports page importer (Path.join (some importer) path))
    (h : c.fragments room chain path = .ok (name, fs)) : ∀ f ∈ fs, A.Shared f := by
  induction h using imported_induction generalizing importer with
  | @step room chain path file ns fs hload hnot hns hfs ih =>
    obtain ⟨hname, hstored⟩ := name_of_load hload
    rw [hlast] at hname
    -- the page itself is on the chain, so that the file is another one
    have htext : c.text? page file.name = some file.text := by
      rw [text?, if_neg (ne_of_mem_of_not_mem hentry hnot).symm, hstored]
    have hfurther : Relation.ReflTransGen (c.Imports page) page.name file.name :=
      hway.tail (hname ▸ himports)
    obtain ⟨hout, hnames⟩ := hspares file ⟨hfurther, htext⟩ ns hns
    refine FileScope.shared_of_fragments hA hcall hout (legible_of_nodes hns) hnames ?_ hfs
    intro path' hpath' name' fs' h'
    exact ih h' (List.mem_append_left _ hentry) List.getLast?_concat hfurther
      ⟨file.text, ns, htext, hns, path', hpath', rfl⟩

/-- So does everything that the page imports. -/
lemma shares_of_involves (hA : A.Lawful) (hcall : c.tags.has .callBlock = true)
    (hspares : ∀ file, c.Involves page file → c.Spares A.hidden file) {ns : List Node}
    (hns : c.nodes page = .ok ns) : ∀ path ∈ allPaths ns, (c.scope page).Shares A path := by
  intro path hpath name fs h
  have himports : c.Imports page page.name (Path.join (some page.name) path) :=
    ⟨page.text, ns, if_pos rfl, hns, path, hpath, rfl⟩
  exact shared_of_imported hA hcall hspares (List.mem_singleton_self _) rfl .refl himports h

end Compiler

end Stencil
