import Stencil.Document
import Stencil.Proofs.Except

/-!
What reading a template gives. Whatever has been read is **legible** (`Node.legible_of_ofSource`):
each tag says what a tag of its kind can say, and the references in all expressions are variables
whose places have not been determined (`Expr.IsSource`).

The builder takes one segment after the other: an output is added to the level being read
(`Builder.add_output`), a tag is added or opens a level (`Builder.add_tag`), and an end tag closes
the level that its tag has opened (`Builder.add_end`).

A computation **fails with** errors of a kind (`FailsWith`) if it has no others. This is shown step
by step (`FailsWith.bind`), for a loop with what it keeps of the elements so far
(`FailsWith.foldlM`).
-/

namespace Stencil

/-! ### Expressions -/

namespace Expr

/-- The references in the expression are variables whose places have not been determined. -/
inductive IsSource : Expr → Prop
  | literal (l : Literal) : IsSource (.literal l)
  | var (name : String) : IsSource (.var name)
  | member {target : Expr} (name : String) : IsSource target → IsSource (.member target name)
  | index {target place : Expr} : IsSource target → IsSource place →
      IsSource (.index target place)
  | list {items : List Expr} : (∀ e ∈ items, IsSource e) → IsSource (.list items)
  | map {entries : List (String × Expr)} : (∀ p ∈ entries, IsSource p.2) → IsSource (.map entries)
  | call {callee : Expr} {args : List Expr} {kwargs : List (String × Expr)} : IsSource callee →
      (∀ e ∈ args, IsSource e) → (∀ p ∈ kwargs, IsSource p.2) → IsSource (.call callee args kwargs)

lemma isSource_ofNames (names : List String) : (ofNames names).IsSource := by
  have go (members : List String) :
      ∀ {e : Expr}, e.IsSource → (members.foldl .member e).IsSource := by
    induction members with
    | nil => exact fun h => h
    | cons name rest ih => exact fun h => ih (.member name h)
  cases names with
  | nil => exact .var ""
  | cons root members => exact go members (.var root)

mutual

/-- What has been read is in terms of variables. -/
lemma isSource_of_read {stop : SyntaxError} {ts : List Token} {e : Expr} {rest : Rest ts}
    (h : read stop ts = .ok (e, rest)) : e.IsSource := by
  rw [read] at h
  obtain ⟨⟨e₁, rest₁, h₁⟩, hoperand, h⟩ := ok_of_bind h
  obtain ⟨⟨e₂, rest₂, h₂⟩, hindexes, h⟩ := ok_of_bind h
  cases h
  exact isSource_of_readIndexes (isSource_of_readOperand hoperand) hindexes
termination_by (ts.length, 2)

lemma isSource_of_readIndexes {stop : SyntaxError} {target : Expr} (htarget : target.IsSource) :
    ∀ {ts : List Token} {e : Expr} {rest : Tail ts}, readIndexes stop target ts = .ok (e, rest) →
      e.IsSource
  | [], _, _, h => by
    rw [readIndexes] at h
    cases h
    exact htarget
  | t :: ts, _, _, h => by
    rw [readIndexes] at h
    split at h
    · obtain ⟨⟨place, rest₁, h₁⟩, hplace, h⟩ := ok_of_bind h
      obtain ⟨⟨rest₂, h₂⟩, _, h⟩ := ok_of_bind h
      obtain ⟨⟨e₃, rest₃, h₃⟩, hmore, h⟩ := ok_of_bind h
      cases h
      exact isSource_of_readIndexes (.index htarget (isSource_of_read hplace)) hmore
    · cases h
      exact htarget
termination_by ts => (ts.length, 0)

lemma isSource_of_readOperand {stop : SyntaxError} :
    ∀ {ts : List Token} {e : Expr} {rest : Rest ts}, readOperand stop ts = .ok (e, rest) →
      e.IsSource
  | [], _, _, h => by
    rw [readOperand] at h
    cases h
  | t :: ts, _, _, h => by
    rw [readOperand] at h
    split at h
    · cases h
      exact .literal _
    · split at h
      · cases h
        exact .literal _
      · cases h
    · cases h
      exact .literal _
    · cases h
      exact .literal _
    · cases h
      exact isSource_ofNames _
    · cases h
      exact .call (isSource_ofNames _) (by simp) (by simp)
    · obtain ⟨⟨args, kwargs, rest₁, h₁⟩, hargs, h⟩ := ok_of_bind h
      cases h
      obtain ⟨hargs, hkwargs⟩ := isSource_of_readArguments hargs
      exact .call (isSource_ofNames _) hargs hkwargs
    · obtain ⟨⟨items, rest₁, h₁⟩, hitems, h⟩ := ok_of_bind h
      cases h
      exact .list (isSource_of_readItems hitems)
    · obtain ⟨⟨entries, rest₁, h₁⟩, hentries, h⟩ := ok_of_bind h
      cases h
      exact .map (isSource_of_readEntries hentries)
    · obtain ⟨⟨e₁, rest₁, h₁⟩, he, h⟩ := ok_of_bind h
      obtain ⟨⟨rest₂, h₂⟩, _, h⟩ := ok_of_bind h
      cases h
      exact isSource_of_read he
    · cases h
termination_by ts => (ts.length, 1)

lemma isSource_of_readArguments {stop : SyntaxError} :
    ∀ {ts : List Token} {args : List Expr} {kwargs : List (String × Expr)} {rest : Rest ts},
      readArguments stop ts = .ok (args, kwargs, rest) →
      (∀ e ∈ args, e.IsSource) ∧ ∀ p ∈ kwargs, p.2.IsSource
  | [], _, _, _, h => by
    rw [readArguments] at h
    cases h
  | t :: ts, _, _, _, h => by
    rw [readArguments] at h
    split at h
    · cases h
      exact ⟨by simp, by simp⟩
    · exact isSource_of_readPositional h
termination_by ts => (ts.length, 4)

lemma isSource_of_readPositional {stop : SyntaxError} {ts : List Token} {args : List Expr}
    {kwargs : List (String × Expr)} {rest : Rest ts}
    (h : readPositional stop ts = .ok (args, kwargs, rest)) :
    (∀ e ∈ args, e.IsSource) ∧ ∀ p ∈ kwargs, p.2.IsSource := by
  rw [readPositional] at h
  split at h
  · obtain ⟨⟨kwargs₁, rest₁, h₁⟩, hkwargs, h⟩ := ok_of_bind h
    cases h
    exact ⟨by simp, isSource_of_readKeywords hkwargs⟩
  · obtain ⟨⟨e, rest₁, h₁⟩, he, h⟩ := ok_of_bind h
    obtain ⟨⟨more, rest₂, h₂⟩, _, h⟩ := ok_of_bind h
    have hfirst := isSource_of_read he
    cases more with
    | false =>
      cases h
      exact ⟨by simpa using hfirst, by simp⟩
    | true =>
      obtain ⟨⟨args₃, kwargs₃, rest₃, h₃⟩, hmore, h⟩ := ok_of_bind h
      cases h
      obtain ⟨hargs, hkwargs⟩ := isSource_of_readPositional hmore
      exact ⟨List.forall_mem_cons.2 ⟨hfirst, hargs⟩, hkwargs⟩
termination_by (ts.length, 3)

lemma isSource_of_readKeywords {stop : SyntaxError} {first : String} {ts : List Token}
    {kwargs : List (String × Expr)} {rest : Rest ts}
    (h : readKeywords stop first ts = .ok (kwargs, rest)) : ∀ p ∈ kwargs, p.2.IsSource := by
  rw [readKeywords.eq_def] at h
  split at h
  · split at h
    · cases h
    · cases h
  next t rest₀ h₀ _ =>
    split at h
    · obtain ⟨⟨e, rest₁, h₁⟩, he, h⟩ := ok_of_bind h
      obtain ⟨⟨more, rest₂, h₂⟩, _, h⟩ := ok_of_bind h
      have hfirst := isSource_of_read he
      cases more with
      | false =>
        cases h
        simpa using hfirst
      | true =>
        obtain ⟨⟨kwargs₃, rest₃, h₃⟩, hmore, h⟩ := ok_of_bind h
        cases h
        exact List.forall_mem_cons.2 ⟨hfirst, isSource_of_readKeywords hmore⟩
    · cases h
termination_by (ts.length, 2)

lemma isSource_of_readItems {stop : SyntaxError} :
    ∀ {ts : List Token} {items : List Expr} {rest : Rest ts},
      readItems stop ts = .ok (items, rest) → ∀ e ∈ items, e.IsSource
  | [], _, _, h => by
    rw [readItems] at h
    cases h
  | t :: ts, _, _, h => by
    -- the bounds on what is left speak of the list with its first token
    have hlength : (t :: ts).length = ts.length + 1 := rfl
    rw [readItems] at h
    split at h
    · cases h
      simp
    · obtain ⟨⟨e, rest₁, h₁⟩, he, h⟩ := ok_of_bind h
      obtain ⟨⟨more, rest₂, h₂⟩, _, h⟩ := ok_of_bind h
      have hfirst := isSource_of_read he
      cases more with
      | false =>
        cases h
        simpa using hfirst
      | true =>
        obtain ⟨⟨items₃, rest₃, h₃⟩, hmore, h⟩ := ok_of_bind h
        cases h
        exact List.forall_mem_cons.2 ⟨hfirst, isSource_of_readItems hmore⟩
termination_by ts => (ts.length, 3)

lemma isSource_of_readEntries {stop : SyntaxError} :
    ∀ {ts : List Token} {entries : List (String × Expr)} {rest : Rest ts},
      readEntries stop ts = .ok (entries, rest) → ∀ p ∈ entries, p.2.IsSource
  | [], _, _, h => by
    rw [readEntries] at h
    cases h
  | t :: ts, _, _, h => by
    have hlength : (t :: ts).length = ts.length + 1 := rfl
    rw [readEntries] at h
    split at h
    · cases h
      simp
    · obtain ⟨⟨k, rest₀, h₀⟩, _, h⟩ := ok_of_bind h
      obtain ⟨⟨e, rest₁, h₁⟩, he, h⟩ := ok_of_bind h
      obtain ⟨⟨more, rest₂, h₂⟩, _, h⟩ := ok_of_bind h
      have hfirst := isSource_of_read he
      cases more with
      | false =>
        cases h
        simpa using hfirst
      | true =>
        obtain ⟨⟨entries₃, rest₃, h₃⟩, hmore, h⟩ := ok_of_bind h
        cases h
        exact List.forall_mem_cons.2 ⟨hfirst, isSource_of_readEntries hmore⟩
termination_by ts => (ts.length, 3)

end

/-- The expression that tokens make up is in terms of variables. -/
lemma isSource_of_ofTokens {ts : List Token} {e : Expr} (h : ofTokens ts = .ok e) :
    e.IsSource := by
  rw [ofTokens] at h
  obtain ⟨⟨e₁, rest, h₁⟩, hread, h⟩ := ok_of_bind h
  cases rest with
  | nil =>
    cases h
    exact isSource_of_read hread
  | cons t rest => cases h

end Expr

/-! ### Signatures -/

namespace Signature

/-- The defaults of the parameters are in terms of variables. -/
def IsSource (sig : Signature) : Prop :=
  ∀ p ∈ sig.params, ∀ d, p.default = some d → d.expr.IsSource

/-- The default, if the piece is a parameter that has one, is in terms of variables. -/
def Piece.IsSource : Piece → Prop
  | .param _ default => ∀ d, default = some d → d.expr.IsSource
  | .comma _ => True
  | .other _ => True

/-- What has been read of a signature is in terms of variables. -/
def State.IsSource : State → Prop
  | .start => True
  | .opened p => ∀ x ∈ p.pieces, x.IsSource
  | .closed _ pieces => ∀ x ∈ pieces, x.IsSource

namespace Partial

variable {p : Partial} {t : Token} {s : State}

lemma isSource_keep (hp : ∀ x ∈ p.pieces, x.IsSource) (t : Token) :
    ∀ x ∈ (p.keep t).pieces, x.IsSource := by
  rw [keep]
  split
  · exact hp
  · exact List.forall_mem_append.2 ⟨hp, by simp [Piece.IsSource]⟩

lemma isSource_of_settle (hp : ∀ x ∈ p.pieces, x.IsSource) {pieces : List Piece}
    (h : p.settle t = .ok pieces) : ∀ x ∈ pieces, x.IsSource := by
  rw [settle] at h
  split at h
  · cases h
    exact hp
  · cases h
  · obtain ⟨e, he, h⟩ := ok_of_bind h
    cases h
    refine List.forall_mem_append.2 ⟨hp, ?_⟩
    simpa [Piece.IsSource] using Expr.isSource_of_ofTokens he

/-- A token brings in nothing but the default that it ends. -/
lemma isSource_of_feed (hp : ∀ x ∈ p.pieces, x.IsSource) (h : p.feed t = .ok s) :
    s.IsSource := by
  have hkeep := isSource_keep hp t
  rw [feed] at h
  split at h
  · cases h
    exact hkeep
  · cases h
    exact hkeep
  · cases h
    exact hkeep
  · cases h
    exact hkeep
  · split at h
    · split at h
      · cases h
        exact List.forall_mem_append.2 ⟨hp, by simp [Piece.IsSource]⟩
      · cases h
    · cases h
      exact hkeep
  · split at h
    · split at h
      · cases h
        exact fun x hx => hp x (List.dropLast_subset _ hx)
      · cases h
    · cases h
      exact hkeep
  · split at h
    · obtain ⟨pieces, hpieces, h⟩ := ok_of_bind h
      cases h
      exact List.forall_mem_append.2 ⟨isSource_of_settle hp hpieces, by simp [Piece.IsSource]⟩
    · cases h
      exact hkeep
  · split at h
    · obtain ⟨pieces, hpieces, h⟩ := ok_of_bind h
      cases h
      exact isSource_of_settle hp hpieces
    · cases h
      exact hkeep
  · split at h
    · cases h
    · cases h
      exact hkeep
  · split at h
    · cases h
    · cases h
      exact hkeep
  · cases h
    exact hkeep

end Partial

lemma State.isSource_of_feed {s s' : State} {t : Token} (hs : s.IsSource) (h : s.feed t = .ok s') :
    s'.IsSource := by
  cases s with
  | start =>
    unfold State.feed begin at h
    dsimp only at h
    split at h
    · cases h
      exact fun x hx => nomatch hx
    · split at h
      · cases h
        exact fun x hx => nomatch hx
      · cases h
  | opened p => exact Partial.isSource_of_feed hs h
  | closed name pieces => cases h

lemma isSource_of_collect {name : String} {expecting : Bool} {done params : List Parameter}
    {pieces : List Piece} (hdone : ∀ p ∈ done, ∀ d, p.default = some d → d.expr.IsSource)
    (hpieces : ∀ x ∈ pieces, x.IsSource) (h : collect name expecting done pieces = .ok params) :
    ∀ p ∈ params, ∀ d, p.default = some d → d.expr.IsSource := by
  induction pieces generalizing expecting done with
  | nil =>
    cases h
    exact hdone
  | cons x rest ih =>
    rw [List.forall_mem_cons] at hpieces
    cases x with
    | param t d =>
      rw [collect] at h
      split at h
      · split at h
        · cases h
        · refine ih (List.forall_mem_append.2 ⟨hdone, ?_⟩) hpieces.2 h
          simpa [Piece.IsSource] using hpieces.1
      · cases h
    | comma t =>
      rw [collect] at h
      split at h
      · cases h
      · exact ih hdone hpieces.2 h
    | other t => cases h

/-- The defaults of a signature are in terms of variables. -/
lemma isSource_of_ofTokens {place : Place} {ts : List Token} {sig : Signature}
    (h : ofTokens place ts = .ok sig) : sig.IsSource := by
  obtain ⟨s, hs, h⟩ := ok_of_bind h
  have hstart : State.start.IsSource := trivial
  have hstate := foldlM_keeps State.IsSource (fun _ _ _ => State.isSource_of_feed) hstart hs
  cases s with
  | start => cases h
  | opened p => cases h
  | closed name pieces =>
    obtain ⟨params, hparams, h⟩ := ok_of_bind h
    cases h
    exact isSource_of_collect (by simp) hstate hparams

end Signature

/-! ### Trees -/

/-- Tags say what their kind of tag can say, in terms of variables. -/
inductive TagKind.Says : TagKind → TagArgs → Prop
  | definition {sig : Signature} : sig.IsSource → Says .definition (.definition sig)
  | callBlock {e : Expr} (source : String) : e.IsSource → Says .callBlock (.callBlock e source)
  | importAll (h : ImportAll) : Says .importAll (.importAll h)
  | importNames (h : ImportNames) : Says .importNames (.importNames h)

lemma TagKind.says_of_read {kind : TagKind} {place : Place} {ts : List Token} {args : TagArgs}
    (h : kind.read place ts = .ok args) : kind.Says args := by
  cases kind with
  | definition =>
    obtain ⟨sig, hsig, h⟩ := ok_of_bind h
    cases h
    exact .definition (Signature.isSource_of_ofTokens hsig)
  | callBlock =>
    rw [read] at h
    split at h
    · cases h
    · obtain ⟨e, he, h⟩ := ok_of_bind h
      cases h
      exact .callBlock _ (Expr.isSource_of_ofTokens he)
  | importAll =>
    obtain ⟨header, _, h⟩ := ok_of_bind h
    cases h
    exact .importAll header
  | importNames =>
    obtain ⟨header, _, h⟩ := ok_of_bind h
    cases h
    exact .importNames header

/-- The word of the tag is known, and the tag says what such a tag can say. -/
def TagHead.Legible (tags : TagSet) (head : TagHead) : Prop :=
  ∃ kind, tags.find? head.name = some kind ∧ kind.Says head.args

/-- All tags in the node are legible, and all expressions are in terms of variables. -/
inductive Node.Legible (tags : TagSet) : Node → Prop
  | text (s : String) : Legible tags (.text s)
  | output {o : Output} : o.expr.IsSource → Legible tags (.output o)
  | tag {head : TagHead} {content : List Node} : head.Legible tags →
      (∀ n ∈ content, Legible tags n) → Legible tags (.tag head content)

/-! ### Segments -/

namespace Builder

variable {tags : TagTable} {b b' : Builder} {s : Segment} {lead word rest : List Char}

lemma foldlM_add {rest : List Segment} (h : b.add tags s = .ok b') :
    (s :: rest).foldlM (Builder.add tags) b = rest.foldlM (Builder.add tags) b' := by
  rw [List.foldlM_cons, h]
  rfl

/-- A text becomes a node of the level being read. -/
lemma add_text (hs : s.kind = .text) :
    b.add tags s = .ok (b.push (.text (String.ofList s.body))) := by
  rw [add]
  rw [hs]

/-- An output becomes a node of the level being read. -/
lemma add_output (ts : List Token) (e : Expr) (hs : s.kind = .output)
    (htext : (Text.trim s.body).isEmpty = false)
    (hts : Token.tokenize s.body s.bodyStart s.line = .ok ts) (he : Expr.ofTokens ts = .ok e) :
    b.add tags s =
      .ok (b.push (.output ⟨e, String.ofList (Text.trim s.body), s.line, s.span⟩)) := by
  rw [add]
  rw [hs]
  dsimp only
  rw [addOutput]
  rw [hts]
  simp only [htext]
  show (Expr.ofTokens ts >>= _) = _
  rw [he]
  rfl

/-- The segment is a tag with the given word, blanks before it, and the rest behind it. -/
structure Worded (s : Segment) (lead name rest : List Char) : Prop where
  kind : s.kind = .tag
  lead : s.body.takeWhile Text.isBlank = lead
  word : (s.body.dropWhile Text.isBlank).takeWhile isTagChar = name
  rest : (s.body.dropWhile Text.isBlank).dropWhile isTagChar = rest
  nonempty : name.isEmpty = false

/-- A tag opens a level if it has an end tag, and else becomes a node of the level being read. -/
lemma add_read (hw : Worded s lead word rest) (reader : TagReader) (ts : List Token)
    (args : TagArgs) (hended : ended? tags (String.ofList word) = none)
    (hreader : tags.get? (String.ofList word) = some reader)
    (hts : Token.tokenize rest (s.bodyStart + Text.bytes (lead ++ word))
      (s.line + Text.newlines (lead ++ word)) = .ok ts)
    (hargs : reader.read ⟨s.line, s.span⟩ ts = .ok args) :
    b.add tags s =
      .ok (if reader.hasEnd then b.enter ⟨String.ofList word, args, s.line, s.span⟩
        else b.push (.tag ⟨String.ofList word, args, s.line, s.span⟩ [])) := by
  obtain ⟨hs, rfl, rfl, rfl, hne⟩ := hw
  rw [add]
  rw [hs]
  dsimp only
  rw [addTag]
  simp only [hne, hended, hreader, Bool.false_eq_true, if_false]
  rw [hts]
  show (reader.read _ ts >>= _) = _
  rw [hargs]
  rfl

/-- So does a tag of the language. -/
lemma add_tag {tags : TagSet} (hw : Worded s lead word rest) (kind : TagKind) (ts : List Token)
    (args : TagArgs) (hended : ended? tags (String.ofList word) = none)
    (hkind : tags.find? (String.ofList word) = some kind)
    (hts : Token.tokenize rest (s.bodyStart + Text.bytes (lead ++ word))
      (s.line + Text.newlines (lead ++ word)) = .ok ts)
    (hargs : kind.read ⟨s.line, s.span⟩ ts = .ok args) :
    b.add tags s =
      .ok (if kind.hasEnd then b.enter ⟨String.ofList word, args, s.line, s.span⟩
        else b.push (.tag ⟨String.ofList word, args, s.line, s.span⟩ [])) :=
  add_read hw kind.reader ts args hended (by rw [TagSet.get?_table, hkind]; rfl) hts hargs

/-- An end tag closes the level that its tag has opened. -/
lemma add_end (hw : Worded s lead word rest) {name : String}
    (hended : ended? tags (String.ofList word) = some name)
    (hrest : (Text.trim rest).isEmpty = true) {before : List Node} {head : TagHead}
    {outer : List (List Node × TagHead)} (hb : b.outer = (before, head) :: outer)
    (hname : head.name = name) :
    b.add tags s =
      .ok ⟨before ++ [.tag { head with span := head.span.join s.span } b.nodes], outer⟩ := by
  obtain ⟨hs, rfl, rfl, rfl, hne⟩ := hw
  rw [add]
  rw [hs]
  dsimp only
  rw [addTag]
  simp only [hne, hended]
  rw [close]
  simp [hrest, hb, hname]

end Builder

namespace Builder

/-- All nodes that have been read have one property, and all tags that are still open another. -/
structure Each (P : Node → Prop) (Q : TagHead → Prop) (b : Builder) : Prop where
  nodes : ∀ n ∈ b.nodes, P n
  outer : ∀ level ∈ b.outer, (∀ n ∈ level.1, P n) ∧ Q level.2

/-- Reading a template gives nodes and leaves tags open that have the properties. -/
structure Gives (tags : TagSet) (P : Node → Prop) (Q : TagHead → Prop) : Prop where
  text (s : String) : P (.text s)
  output {o : Output} : o.expr.IsSource → P (.output o)
  tag {head : TagHead} {kind : TagKind} : tags.find? head.name = some kind →
    kind.Says head.args → kind.hasEnd = false → P (.tag head [])
  opened {head : TagHead} {kind : TagKind} : tags.find? head.name = some kind →
    kind.Says head.args → kind.hasEnd = true → Q head
  ended {head : TagHead} {content : List Node} (span : Text.Span) : Q head →
    (∀ n ∈ content, P n) → P (.tag { head with span := span } content)

variable {tags : TagSet} {b b' : Builder} {s : Segment} {P : Node → Prop} {Q : TagHead → Prop}

lemma Each.push (hb : b.Each P Q) {n : Node} (hn : P n) : (b.push n).Each P Q :=
  ⟨List.forall_mem_append.2 ⟨hb.nodes, by simpa using hn⟩, hb.outer⟩

lemma each_of_addOutput (hR : Gives tags P Q) (hb : b.Each P Q) (h : b.addOutput s = .ok b') :
    b'.Each P Q := by
  rw [addOutput] at h
  split at h
  · cases h
  · obtain ⟨ts, _, h⟩ := ok_of_bind h
    obtain ⟨e, he, h⟩ := ok_of_bind h
    cases h
    exact hb.push (hR.output (Expr.isSource_of_ofTokens he))

lemma each_of_close (hR : Gives tags P Q) (hb : b.Each P Q) {name : String} {rest : List Char}
    (h : b.close s name rest = .ok b') : b'.Each P Q := by
  rw [close] at h
  split at h
  · cases h
  · split at h
    · cases h
    next before head outer houter =>
      have hlevels := hb.outer
      rw [houter, List.forall_mem_cons] at hlevels
      obtain ⟨⟨hbefore, hhead⟩, hlevels⟩ := hlevels
      split at h
      · cases h
        have htag := hR.ended (head.span.join s.span) hhead hb.nodes
        exact ⟨List.forall_mem_append.2 ⟨hbefore, by simpa using htag⟩, hlevels⟩
      · cases h

lemma each_of_addTag (hR : Gives tags P Q) (hb : b.Each P Q) (h : b.addTag tags s = .ok b') :
    b'.Each P Q := by
  rw [addTag] at h
  dsimp only at h
  split at h
  · cases h
  · split at h
    · exact each_of_close hR hb h
    · split at h
      · cases h
      next reader hreader =>
        rw [TagSet.get?_table] at hreader
        obtain ⟨kind, hkind, rfl⟩ := Option.map_eq_some_iff.1 hreader
        obtain ⟨ts, _, h⟩ := ok_of_bind h
        obtain ⟨args, hargs, h⟩ := ok_of_bind h
        cases h
        have hsays := TagKind.says_of_read hargs
        split
        next hend =>
          exact ⟨by simp [enter],
            List.forall_mem_cons.2 ⟨⟨hb.nodes, hR.opened hkind hsays hend⟩, hb.outer⟩⟩
        next hend => exact hb.push (hR.tag hkind hsays (Bool.not_eq_true _ ▸ hend))

/-- A segment keeps the properties of all that has been read. -/
lemma each_of_add (hR : Gives tags P Q) (hb : b.Each P Q) (h : b.add tags s = .ok b') :
    b'.Each P Q := by
  rw [add] at h
  split at h
  · cases h
    exact hb.push (hR.text _)
  · cases h
    exact hb
  · exact each_of_addOutput hR hb h
  · exact each_of_addTag hR hb h

end Builder

namespace Node

variable {tags : TagSet} {source : String} {nodes : List Node}

/-- What reading gives holds of all that has been read. -/
lemma forall_of_ofSource {P : Node → Prop} {Q : TagHead → Prop} (hR : Builder.Gives tags P Q)
    (h : ofSource tags source = .ok nodes) : ∀ n ∈ nodes, P n := by
  obtain ⟨segments, _, h⟩ := ok_of_bind h
  obtain ⟨b, hb, h⟩ := ok_of_bind h
  have hempty : Builder.empty.Each P Q := ⟨by simp [Builder.empty], by simp [Builder.empty]⟩
  have heach := foldlM_keeps (Builder.Each P Q) (fun _ _ _ => Builder.each_of_add hR) hempty hb
  rw [Builder.finish] at h
  split at h
  · cases h
    exact heach.nodes
  · cases h

/-- What has been read is legible. -/
lemma legible_of_ofSource (h : ofSource tags source = .ok nodes) : ∀ n ∈ nodes, n.Legible tags :=
  forall_of_ofSource (Q := TagHead.Legible tags) {
    text := .text
    output := .output
    tag := fun hkind hsays _ => .tag ⟨_, hkind, hsays⟩ (by simp)
    opened := fun hkind hsays _ => ⟨_, hkind, hsays⟩
    ended := fun _ hhead hcontent => .tag hhead hcontent } h

end Node

/-- A template whose segments leave no level open has been read. -/
lemma Node.ofSource_of {tags : TagSet} {source : String} {nodes : List Node}
    (segments : List Segment) (hs : Segment.segments source.toList 0 1 = .ok segments)
    (hb : segments.foldlM (Builder.add tags) .empty = .ok ⟨nodes, []⟩) :
    Node.ofSource tags source = .ok nodes := by
  rw [ofSource, read, hs]
  show (segments.foldlM (Builder.add tags) .empty >>= Builder.finish) = _
  rw [hb]
  rfl

end Stencil
