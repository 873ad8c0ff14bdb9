import Stencil.Proofs.Hygiene
import Stencil.Proofs.Recording
import Stencil.Proofs.Reporting
import Stencil.Proofs.Resolution
import Stencil.Proofs.Script.Vocabulary

/-!
Expressions of programs. `Program.expressions` lists all expressions in a program, those inside of
others included. What reading gives is in terms of identifiers (`Node.Regular`); names become
parameters and entries of the context, some of which linking turns into members of a namespace or
into entries of the private table. So the expressions of compiled programs are in terms of placed
names (`Compiler.isLinked_of_compile`).
-/

namespace Stencil

/-! ### Expressions in programs -/

namespace Expr

mutual

/-- The expression and those inside of it. -/
def parts (e : Expr) : List Expr :=
  e :: match e with
    | .literal _ | .var _ | .param _ | .context _ | .symbol _ => []
    | .member target _ => target.parts
    | .index target place => target.parts ++ place.parts
    | .list items => itemParts items
    | .map entries => entryParts entries
    | .call callee args kwargs => callee.parts ++ itemParts args ++ entryParts kwargs

/-- The expressions and those inside of them. -/
def itemParts : List Expr → List Expr
  | [] => []
  | e :: rest => e.parts ++ itemParts rest

/-- The expressions under names and those inside of them. -/
def entryParts : List (String × Expr) → List Expr
  | [] => []
  | (_, e) :: rest => e.parts ++ entryParts rest

end

end Expr

mutual

/-- The expressions of an instruction, those inside of others left out. -/
def Instr.expressions : Instr → List Expr
  | .text _ => []
  | .output e => [e]
  | .define _ m => m.expressions
  | .callBlock body e _ => allExpressions body ++ [e]
  | .bindSpace _ members markup => allExpressions members ++ allExpressions markup

/-- The expressions of a macro. -/
def Macro.expressions : Macro → List Expr
  | ⟨_, params, body, _⟩ => params.filterMap (·.default) ++ allExpressions body

/-- The expressions of instructions. -/
def allExpressions : List Instr → List Expr
  | [] => []
  | i :: rest => i.expressions ++ allExpressions rest

end

/-- All expressions of a program. -/
def Program.expressions (p : Program) : List Expr :=
  (allExpressions p.instrs).flatMap Expr.parts

/-! ### What has been read -/

section Read

variable {place : Place} {ts : List Token}

/-- Expressions in terms of names as they stand in a template. -/
abbrev Expr.IsRead (e : Expr) : Prop :=
  e.Regular Expr.IsVar Number.IsRead

lemma Signature.isRead_of_ofTokens {sig : Signature} (hts : ∀ t ∈ ts, t.Regular)
    (h : ofTokens place ts = .ok sig) :
    ∀ p ∈ sig.params, ∀ d, p.default = some d → d.expr.IsRead := by
  intro p hp d hd
  obtain ⟨ds, hds, he, _⟩ := (written_of_ofTokens h).default hp hd
  exact Expr.regular_of_ofTokens (fun t ht => hts t (List.mem_of_mem_filter (hds.subset ht))) he

lemma Header.kind_of_ofTokens {tag : String} {header : Header}
    (h : ofTokens tag place ts = .ok header) : ∀ t ∈ header.words, t.kind = .path := by
  have hfeed {f f' : Found} {t : Token} (hf : ∀ w ∈ f.words, w.kind = .path)
      (h : f.feed tag t = .ok f') : ∀ w ∈ f'.words, w.kind = .path := by
    rw [Found.feed] at h
    split at h
    · cases h
      exact hf
    · cases h
      exact hf
    · split at h
      · cases h
        exact hf
      · cases h
    next hkind =>
      split at h
      · cases h
        exact hf
      · split at h
        · cases h
          exact hf
        · cases h
          exact List.forall_mem_append.2 ⟨hf, List.forall_mem_singleton.2 hkind⟩
    · cases h
  obtain ⟨f, hf, h⟩ := ok_of_bind h
  have hwords := foldlM_keeps (fun f : Found => ∀ w ∈ f.words, w.kind = .path)
    (fun _ _ _ => hfeed) (List.forall_mem_nil _) hf
  split at h
  · cases h
  · cases h
    exact hwords

/-- The name under which a file is imported is an identifier. -/
lemma ImportAll.isIdentifier_of_ofTokens {header : ImportAll} (hts : ∀ t ∈ ts, t.Regular)
    (h : ofTokens place ts = .ok header) : IsIdentifier header.handle := by
  obtain ⟨words, hwords, h⟩ := ok_of_bind h
  split at h
  · cases h
  · cases h
  next handle hhandle =>
    split at h
    next hplain =>
      cases h
      have hmem : handle ∈ words.words := by simp [hhandle]
      have hregular := hts handle (Header.words_subset hwords hmem)
        (by simp [Header.kind_of_ofTokens hwords handle hmem])
      rw [Text.fields_of_notMem (by simpa [Token.isPlain] using hplain), List.forall_mem_singleton,
        String.ofList_toList] at hregular
      exact hregular
    next => cases h

/-- The tag has been read from regular tokens. -/
def TagArgs.IsRead : TagArgs → Prop
  | .definition sig => ∀ p ∈ sig.params, ∀ d, p.default = some d → d.expr.IsRead
  | .callBlock e _ => e.IsRead
  | .importAll header => IsIdentifier header.handle
  | .importNames _ => True

lemma TagKind.isRead_of_read {kind : TagKind} {args : TagArgs} (hts : ∀ t ∈ ts, t.Regular)
    (h : kind.read place ts = .ok args) : args.IsRead := by
  cases kind with
  | definition =>
    obtain ⟨sig, hsig, h⟩ := ok_of_bind h
    cases h
    exact Signature.isRead_of_ofTokens hts hsig
  | callBlock =>
    rw [read] at h
    split at h
    · cases h
    · obtain ⟨e, he, h⟩ := ok_of_bind h
      cases h
      exact Expr.regular_of_ofTokens hts he
  | importAll =>
    obtain ⟨header, hheader, h⟩ := ok_of_bind h
    cases h
    exact ImportAll.isIdentifier_of_ofTokens hts hheader
  | importNames =>
    obtain ⟨header, _, h⟩ := ok_of_bind h
    cases h
    trivial

/-- The node, its content aside, has been read from regular tokens. -/
def Node.IsRead : Node → Prop
  | .text _ => True
  | .output o => o.expr.IsRead
  | .tag head _ => head.args.IsRead

/-- All nodes of a template have been read from regular tokens. -/
lemma Node.isRead_of_ofSource {tags : TagSet} {source : String} {ns : List Node}
    (h : ofSource tags source = .ok ns) : ∀ n, Within n ns → n.IsRead := by
  obtain ⟨segs, _, hreads⟩ := read_eq_ok_iff.1 h
  intro n hn
  cases n with
  | text s => trivial
  | output o =>
    obtain ⟨s, hs⟩ := hreads.of_output hn
    obtain ⟨ts, hts, he⟩ := hs.expr
    exact Expr.regular_of_ofTokens (Token.regular_of_tokenize hts) he
  | tag head content =>
    obtain ⟨reader, place, cs, offset, line, ts, hreader, hts, hargs⟩ := hreads.of_tag hn
    rw [TagSet.get?_table] at hreader
    obtain ⟨kind, _, rfl⟩ := Option.map_eq_some_iff.1 hreader
    exact TagKind.isRead_of_read (Token.regular_of_tokenize hts) hargs

end Read

/-! ### Compiling and linking -/

/-- A name the place of which has been determined. -/
inductive Expr.IsPlaced : Expr → Prop
  | param {name : String} : IsIdentifier name → IsPlaced (.param name)
  | context {name : String} : IsIdentifier name → IsPlaced (.context name)
  | symbol {key : Symbol} : IsIdentifier key.name → IsPlaced (.symbol key)

/-- Expressions in terms of names the places of which have been determined. -/
abbrev Expr.IsLinked (e : Expr) : Prop :=
  e.Regular Expr.IsPlaced Number.IsRead

lemma Expr.isLinked_resolve {e : Expr} (h : e.IsRead) (params : List String) :
    (FileScope.resolve params e).IsLinked := by
  refine Regular.replace (relinked_resolveVar _) (fun he => ?_) h
  obtain ⟨name, hname, rfl⟩ := he
  have hplaced : (Expr.var name).replace (resolveVar params.contains) =
      if params.contains name then .param name else .context name := replace_of_some rfl
  rw [hplaced]
  split
  · exact .root (.param hname)
  · exact .root (.context hname)

section Linking

variable {f : Expr → Option Expr}

lemma Expr.isLinked_replace (hf : Moves f)
    (hentry : ∀ {name e}, IsIdentifier name → f (.context name) = some e → Dotted IsPlaced e)
    {e : Expr} (h : e.IsLinked) : (e.replace f).IsLinked := by
  refine Regular.replace hf.relinked (fun he => ?_) h
  cases he with
  | @context name hname =>
    cases hname' : f (.context name) with
    | none =>
      rw [IsReference.replace_eq (.context name) hname']
      exact .root (.context hname)
    | some e' =>
      rw [replace_of_some hname']
      exact hentry hname hname'
  | @param name hname =>
    rw [IsReference.replace_eq (.param name) (hf.other (by simp))]
    exact .root (.param hname)
  | @symbol key hkey =>
    rw [IsReference.replace_eq (.symbol key) (hf.other (by simp))]
    exact .root (.symbol hkey)

/-- The expressions of the instruction are in terms of placed names. -/
def Instr.IsLinked (i : Instr) : Prop :=
  ∀ e ∈ i.expressions, e.IsLinked

mutual

/-- Replacing keeps what it keeps of each expression. -/
lemma Instr.isLinked_replace (hf : ∀ {e : Expr}, e.IsLinked → (e.replace f).IsLinked) :
    ∀ i : Instr, i.IsLinked → (i.replace f).IsLinked
  | .text _, h => h
  | .output e, h => List.forall_mem_singleton.2 (hf (h e List.mem_cons_self))
  | .define _ m, h => Macro.isLinked_replace hf m h
  | .callBlock body e _, h => by
    rw [Instr.IsLinked, Instr.expressions, List.forall_mem_append, List.forall_mem_singleton] at h
    exact List.forall_mem_append.2
      ⟨isLinked_replaceAll hf body h.1, List.forall_mem_singleton.2 (hf h.2)⟩
  | .bindSpace _ _ _, h => h

lemma Macro.isLinked_replace (hf : ∀ {e : Expr}, e.IsLinked → (e.replace f).IsLinked) :
    ∀ m : Macro, (∀ e ∈ m.expressions, e.IsLinked) → ∀ e ∈ (m.replace f).expressions, e.IsLinked
  | ⟨_, params, body, _⟩, h => by
    rw [Macro.expressions, List.forall_mem_append] at h
    refine List.forall_mem_append.2 ⟨fun e he => ?_, isLinked_replaceAll hf body h.2⟩
    obtain ⟨q, hq, hdefault⟩ := List.mem_filterMap.1 he
    obtain ⟨p, hp, rfl⟩ := List.mem_map.1 hq
    obtain ⟨d, hd, rfl⟩ := Option.map_eq_some_iff.1 hdefault
    exact hf (h.1 d (List.mem_filterMap.2 ⟨p, hp, hd⟩))

lemma isLinked_replaceAll (hf : ∀ {e : Expr}, e.IsLinked → (e.replace f).IsLinked) :
    ∀ is : List Instr, (∀ e ∈ allExpressions is, e.IsLinked) →
      ∀ e ∈ allExpressions (replaceAll f is), e.IsLinked
  | [], h => h
  | i :: rest, h => by
    rw [allExpressions, List.forall_mem_append] at h
    exact List.forall_mem_append.2
      ⟨Instr.isLinked_replace hf i h.1, isLinked_replaceAll hf rest h.2⟩

end

lemma Exports.expressions_rebind (x : Exports) (target : String → Binding) (i : Instr) :
    (x.rebind target i).expressions = i.expressions := by
  cases i with
  | define place m =>
    cases place with
    | context name =>
      rw [rebind]
      split <;> rfl
    | _ => rfl
  | _ => rfl

lemma forall_mem_allExpressions {P : Expr → Prop} {is : List Instr} :
    (∀ e ∈ allExpressions is, P e) ↔ ∀ i ∈ is, ∀ e ∈ i.expressions, P e := by
  induction is with
  | nil => simp [allExpressions]
  | cons i rest ih => rw [allExpressions, List.forall_mem_append, ih, List.forall_mem_cons]

namespace Exports

variable {x : Exports} {fragments : List Fragment}
  (h : ∀ f ∈ fragments, ∀ i ∈ f.code, i.IsLinked)

include h

lemma isLinked_members {handle : String} (hhandle : IsIdentifier handle) :
    ∀ i ∈ x.members handle fragments, i.IsLinked := by
  have hentry {name : String} {e : Expr} (hname : IsIdentifier name)
      (he : x.memberOf handle (.context name) = some e) : e.Dotted Expr.IsPlaced := by
    simp only [memberOf] at he
    split at he
    · cases he
      exact .member (.root (.context hhandle)) hname
    · cases he
  rw [members_eq_flatMap]
  refine forall_bound h fun hi => Instr.isLinked_replace
    (Expr.isLinked_replace (x.moves_memberOf handle) hentry) _ ?_
  rwa [Instr.IsLinked, expressions_rebind]

lemma isLinked_pick {selected : List String} : ∀ i ∈ x.pick selected fragments, i.IsLinked := by
  have hentry {name : String} {e : Expr} (hname : IsIdentifier name)
      (he : x.symbolOf selected (.context name) = some e) : e.Dotted Expr.IsPlaced := by
    simp only [symbolOf] at he
    split at he
    · cases he
      exact .root (.symbol hname)
    · cases he
  rw [pick_eq_flatMap]
  refine forall_bound h fun hi => Instr.isLinked_replace
    (Expr.isLinked_replace (x.moves_symbolOf selected) hentry) _ ?_
  rwa [Instr.IsLinked, expressions_rebind]

end Exports

end Linking

/-! ### Compiled code -/

lemma Param.isLinked_params {sig : Signature}
    (h : ∀ p ∈ sig.params, ∀ d, p.default = some d → d.expr.IsRead) (scope : List String) :
    ∀ e ∈ (FileScope.params scope sig).filterMap (·.default), e.IsLinked := by
  intro e he
  obtain ⟨q, hq, hdefault⟩ := List.mem_filterMap.1 he
  obtain ⟨p, hp, rfl⟩ := List.mem_map.1 hq
  obtain ⟨d, hd, rfl⟩ := Option.map_eq_some_iff.1 hdefault
  exact Expr.isLinked_resolve (h p hp d hd) scope

/-- What nodes become is in terms of placed names, if imported files are. -/
lemma FileScope.Compiles.isLinked {u : FileScope}
    (himported : ∀ path name fs, u.imported path = .ok (name, fs) →
      ∀ i ∈ fs.flatMap Fragment.code, i.IsLinked)
    {params : List String} {ns : List Node} {is : List Instr} (h : u.Compiles params ns is)
    (hns : ∀ n, Node.Within n ns → n.IsRead) : ∀ i ∈ is, i.IsLinked := by
  have later {n : Node} {ns : List Node} (h : ∀ m, Node.Within m (n :: ns) → m.IsRead) :
      ∀ m, Node.Within m ns → m.IsRead :=
    fun m hm => h m (hm.mono (List.subset_cons_self n ns))
  induction h with
  | nil => exact List.forall_mem_nil _
  | text s _ ih => exact List.forall_mem_cons.2 ⟨List.forall_mem_nil _, ih (later hns)⟩
  | @output params _ _ o _ _ ih =>
    have ho : o.expr.IsRead := hns (.output o) (.here List.mem_cons_self)
    exact List.forall_mem_cons.2
      ⟨List.forall_mem_singleton.2 (Expr.isLinked_resolve ho params), ih (later hns)⟩
  | @definition params _ content _ body head sig _ hargs _ _ _ ihbody ih =>
    have hsig : head.args.IsRead := hns (.tag head content) (.here List.mem_cons_self)
    rw [hargs] at hsig
    have hbody := ihbody fun m hm => hns m (.inside List.mem_cons_self hm)
    exact List.forall_mem_cons.2 ⟨List.forall_mem_append.2
      ⟨Param.isLinked_params hsig _, forall_mem_allExpressions.2 hbody⟩, ih (later hns)⟩
  | @callBlock params _ content _ body head e _ _ hargs _ _ _ ihbody ih =>
    have he : head.args.IsRead := hns (.tag head content) (.here List.mem_cons_self)
    rw [hargs] at he
    have hbody := ihbody fun m hm => hns m (.inside List.mem_cons_self hm)
    exact List.forall_mem_cons.2 ⟨List.forall_mem_append.2 ⟨forall_mem_allExpressions.2 hbody,
      List.forall_mem_singleton.2 (Expr.isLinked_resolve he params)⟩, ih (later hns)⟩
  | @importAll _ _ content _ head header _ _ _ hargs hload _ ih =>
    have hhandle : head.args.IsRead := hns (.tag head content) (.here List.mem_cons_self)
    rw [hargs] at hhandle
    have hcode := List.forall_mem_flatMap.1 (himported _ _ _ hload)
    exact List.forall_mem_cons.2 ⟨List.forall_mem_append.2
      ⟨forall_mem_allExpressions.2 (Exports.isLinked_members hcode hhandle),
        forall_mem_allExpressions.2 (forall_markups fun _ hmem => hcode _ hmem)⟩, ih (later hns)⟩
  | importNames _ _ hload _ _ ih =>
    have hcode := List.forall_mem_flatMap.1 (himported _ _ _ hload)
    exact List.forall_mem_append.2 ⟨Exports.isLinked_pick hcode, ih (later hns)⟩

namespace Compiler

variable {c : Compiler}

lemma isLinked_of_fragments (room : Nat) : ∀ chain path name fs,
    c.fragments room chain path = .ok (name, fs) → ∀ i ∈ fs.flatMap Fragment.code, i.IsLinked := by
  intro chain path name fs h
  induction h using imported_induction with
  | @step room chain path file ns fs _ _ hns hfs ih =>
    let u : FileScope := ⟨c.tags, file, c.fragments room (chain ++ [file.name])⟩
    have hcompiles := FileScope.compiles_of_nodes (u := u) (legible_of_nodes hns)
      (FileScope.nodes_of_fragments hfs)
    exact hcompiles.isLinked (fun _ _ _ => ih) (Node.isRead_of_ofSource (ofSource_of_nodes hns))

/-- The expressions of a compiled program are in terms of placed names. -/
lemma isLinked_of_compile {entry : SourceFile} {p : Program} (hp : c.compile entry = .ok p) :
    ∀ i ∈ p.instrs, i.IsLinked := by
  obtain ⟨ns, hns, hcompiles⟩ := compiles_of_compile hp
  exact hcompiles.isLinked (isLinked_of_fragments c.room _)
    (Node.isRead_of_ofSource (ofSource_of_nodes hns))

end Compiler

end Stencil
