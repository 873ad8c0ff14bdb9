import Stencil.Proofs.Grammar.Segmentation
import Stencil.Proofs.Reading
import Mathlib.Data.List.TakeWhile

/-!
The grammar of templates. What a segment is in the tree is seen from the segment alone: an output
(`Segment.Outputs`), the head of a tag (`Segment.Heads`), or the end of one (`Segment.Ends`).
`Node.Reads` says which nodes segments make up: a tag that has an end tag contains what the segments
up to its end tag make up.

* A step of the builder does one of six things (`Builder.added_of_add`), and what has been read so
  far is a template with some tags still open (`Builder.Holds`). When all have been ended, the
  segments make up the nodes (`Node.reads_of_foldlM`).
* The builder reads what makes up nodes, whatever it has read before (`Node.Reads.foldlM_eq`).
* Segments make up nodes if each of them can be read by itself and the tags are **nested**
  (`Segment.Nested`), and the sources of the segments can be found again in the nodes
  (`Node.flatten`).

The main result is `templates_exact`.
-/

namespace Stencil

open Text (Span bytes newlines)

/-! ### Single segments -/

namespace Segment

/-- The segment is an output. -/
structure Outputs (s : Segment) (o : Output) : Prop where
  kind : s.kind = .output
  body : (Text.trim s.body).isEmpty = false
  expr : ∃ ts, Token.tokenize s.body s.bodyStart s.line = .ok ts ∧ Expr.ofTokens ts = .ok o.expr
  source : o.source = String.ofList (Text.trim s.body)
  line : o.line = s.line
  span : o.span = s.span

/-- The segment is a tag, without its content. -/
structure Heads (tags : TagTable) (s : Segment) (reader : TagReader) (head : TagHead) : Prop where
  args : ∃ lead word rest ts, Builder.Worded s lead word rest ∧ head.name = String.ofList word ∧
    Token.tokenize rest (s.bodyStart + bytes (lead ++ word)) (s.line + newlines (lead ++ word)) =
      .ok ts ∧ reader.read ⟨s.line, s.span⟩ ts = .ok head.args
  ended : Builder.ended? tags head.name = none
  known : tags.get? head.name = some reader
  line : head.line = s.line
  span : head.span = s.span

/-- The segment ends a tag of the given name. -/
structure Ends (tags : TagTable) (s : Segment) (name : String) : Prop where
  word : ∃ lead word rest, Builder.Worded s lead word rest ∧ (Text.trim rest).isEmpty = true ∧
    Builder.ended? tags (String.ofList word) = some name

/-- The segment can be read by itself. -/
def Parses (tags : TagTable) (s : Segment) : Prop :=
  match s.kind with
  | .text | .comment => True
  | .output => ∃ o, s.Outputs o
  | .tag => (∃ reader head, s.Heads tags reader head) ∨ ∃ name, s.Ends tags name

/-- What segments do to the level that is being read. -/
inductive Role where
  | leaf
  | opens (name : String)
  | closes (name : String)
  deriving DecidableEq, Repr

/-- What the segment does to the level that is being read, which is seen from its word. -/
def role (tags : TagTable) (s : Segment) : Role :=
  let word := String.ofList ((s.body.dropWhile Text.isBlank).takeWhile Builder.isTagChar)
  if s.kind = .tag then
    match Builder.ended? tags word with
    | some name => .closes name
    | none => if (tags.get? word).any (·.hasEnd) then .opens word else .leaf
  else .leaf

/-- **Tags are nested**: each level is closed under the name under which it has been opened. -/
inductive Nested : List Role → Prop
  | nil : Nested []
  | leaf {roles : List Role} : Nested roles → Nested (.leaf :: roles)
  | block (name : String) {inner after : List Role} : Nested inner → Nested after →
      Nested (.opens name :: (inner ++ .closes name :: after))

lemma Heads.kind {tags : TagTable} {s : Segment} {reader : TagReader} {head : TagHead}
    (h : s.Heads tags reader head) : s.kind = .tag := by
  obtain ⟨_, _, _, _, hw, _⟩ := h.args
  exact hw.kind

lemma Ends.kind {tags : TagTable} {s : Segment} {name : String} (h : s.Ends tags name) :
    s.kind = .tag := by
  obtain ⟨_, _, _, hw, _⟩ := h.word
  exact hw.kind

lemma Heads.parses {tags : TagTable} {s : Segment} {reader : TagReader} {head : TagHead}
    (h : s.Heads tags reader head) : s.Parses tags := by
  rw [Parses, h.kind]
  exact .inl ⟨reader, head, h⟩

lemma Ends.parses {tags : TagTable} {s : Segment} {name : String} (h : s.Ends tags name) :
    s.Parses tags := by
  rw [Parses, h.kind]
  exact .inr ⟨name, h⟩

lemma Heads.role_eq {tags : TagTable} {s : Segment} {reader : TagReader} {head : TagHead}
    (h : s.Heads tags reader head) :
    s.role tags = if reader.hasEnd then .opens head.name else .leaf := by
  obtain ⟨lead, word, rest, ts, hw, hname, _⟩ := h.args
  have hended := h.ended
  have hknown := h.known
  rw [hname] at hended hknown ⊢
  rw [role, if_pos hw.kind, hw.word, hended, hknown]
  rfl

lemma Ends.role_eq {tags : TagTable} {s : Segment} {name : String} (h : s.Ends tags name) :
    s.role tags = .closes name := by
  obtain ⟨lead, word, rest, hw, _, hended⟩ := h.word
  rw [role, if_pos hw.kind, hw.word, hended]

lemma role_of_ne {tags : TagTable} {s : Segment} (h : s.kind ≠ .tag) : s.role tags = .leaf := by
  rw [role, if_neg h]

lemma kind_of_role (tags : TagTable) {s : Segment} (h : s.role tags ≠ .leaf) : s.kind = .tag :=
  Decidable.byContradiction fun hne => h (role_of_ne hne)

lemma Parses.heads_or_ends {tags : TagTable} {s : Segment} (h : s.Parses tags)
    (hs : s.kind = .tag) :
    (∃ reader head, s.Heads tags reader head) ∨ ∃ name, s.Ends tags name := by
  rwa [Parses, hs] at h

/-- A tag that can be read opens a level only if it has an end tag. -/
lemma Parses.heads {tags : TagTable} {s : Segment} {name : String} (h : s.Parses tags)
    (hrole : s.role tags = .opens name) :
    ∃ reader head, s.Heads tags reader head ∧ reader.hasEnd = true ∧ head.name = name := by
  have hs : s.kind = .tag := kind_of_role tags (by simp [hrole])
  obtain ⟨reader, head, hhead⟩ | ⟨name', hends⟩ := h.heads_or_ends hs
  · rw [hhead.role_eq] at hrole
    split at hrole
    next hend =>
      cases hrole
      exact ⟨reader, head, hhead, hend, rfl⟩
    next => cases hrole
  · cases hends.role_eq.symm.trans hrole

lemma Parses.ends {tags : TagTable} {s : Segment} {name : String} (h : s.Parses tags)
    (hrole : s.role tags = .closes name) : s.Ends tags name := by
  have hs : s.kind = .tag := kind_of_role tags (by simp [hrole])
  obtain ⟨reader, head, hhead⟩ | ⟨name', hends⟩ := h.heads_or_ends hs
  · rw [hhead.role_eq] at hrole
    split at hrole <;> cases hrole
  · cases hends.role_eq.symm.trans hrole
    exact hends

end Segment

/-! ### Steps of the builder -/

namespace Builder

variable {tags : TagTable} {b b' : Builder} {s : Segment}

/-- What a segment does to what has been read. -/
inductive Added (tags : TagTable) (b : Builder) (s : Segment) : Builder → Prop
  | text : s.kind = .text → Added tags b s (b.push (.text (String.ofList s.body)))
  | comment : s.kind = .comment → Added tags b s b
  | output {o : Output} : s.Outputs o → Added tags b s (b.push (.output o))
  | tag {reader : TagReader} {head : TagHead} : s.Heads tags reader head →
      reader.hasEnd = false → Added tags b s (b.push (.tag head []))
  | opened {reader : TagReader} {head : TagHead} : s.Heads tags reader head →
      reader.hasEnd = true → Added tags b s (b.enter head)
  | closed {before : List Node} {head : TagHead} {outer : List (List Node × TagHead)} :
      s.Ends tags head.name → b.outer = (before, head) :: outer →
      Added tags b s ⟨before ++ [.tag { head with span := head.span.join s.span } b.nodes], outer⟩

lemma added_of_addOutput (hs : s.kind = .output) (h : b.addOutput s = .ok b') :
    Added tags b s b' := by
  rw [addOutput] at h
  split at h
  next => cases h
  next hbody =>
    obtain ⟨ts, hts, h⟩ := ok_of_bind h
    obtain ⟨e, he, h⟩ := ok_of_bind h
    cases h
    exact .output ⟨hs, by simpa using hbody, ⟨ts, hts, he⟩, rfl, rfl, rfl⟩

lemma added_of_close {lead word rest : List Char} {name : String} (hw : Worded s lead word rest)
    (hended : ended? tags (String.ofList word) = some name) (h : b.close s name rest = .ok b') :
    Added tags b s b' := by
  rw [close] at h
  split at h
  next => cases h
  next hrest =>
    split at h
    next => cases h
    next before head outer houter =>
      split at h
      next hname =>
        cases h
        refine .closed ⟨lead, word, rest, hw, by simpa using hrest, ?_⟩ houter
        rw [hended, hname]
      next => cases h

lemma added_of_addTag (hs : s.kind = .tag) (h : b.addTag tags s = .ok b') :
    Added tags b s b' := by
  rw [addTag] at h
  dsimp only at h
  split at h
  next => cases h
  next hword =>
    have hw : Worded s _ _ _ := ⟨hs, rfl, rfl, rfl, by simpa using hword⟩
    split at h
    next name hended => exact added_of_close hw hended h
    next hended =>
      split at h
      next => cases h
      next reader hreader =>
        obtain ⟨ts, hts, h⟩ := ok_of_bind h
        obtain ⟨args, hargs, h⟩ := ok_of_bind h
        cases h
        have hhead : s.Heads tags reader ⟨_, args, s.line, s.span⟩ :=
          ⟨⟨_, _, _, ts, hw, rfl, hts, hargs⟩, hended, hreader, rfl, rfl⟩
        split
        next hend => exact .opened hhead hend
        next hend => exact .tag hhead (by simpa using hend)

lemma added_of_add (h : b.add tags s = .ok b') : Added tags b s b' := by
  rw [add] at h
  split at h
  next hs =>
    cases h
    exact .text hs
  next hs =>
    cases h
    exact .comment hs
  next hs => exact added_of_addOutput hs h
  next hs => exact added_of_addTag hs h

lemma Added.add_eq (h : Added tags b s b') : b.add tags s = .ok b' := by
  cases h with
  | text hs => exact add_text hs
  | comment hs =>
    rw [add]
    rw [hs]
  | @output o ho =>
    obtain ⟨hs, hbody, ⟨ts, hts, he⟩, hsource, hline, hspan⟩ := ho
    rw [add_output ts o.expr hs hbody hts he, ← hsource, ← hline, ← hspan]
  | @tag reader head hhead hend | @opened reader head hhead hend =>
    obtain ⟨⟨lead, word, rest, ts, hw, hname, hts, hargs⟩, hended, hknown, hline, hspan⟩ := hhead
    rw [hname] at hended hknown
    rw [add_read hw reader ts head.args hended hknown hts hargs, hend, ← hname, ← hline, ← hspan]
    rfl
  | closed hends houter =>
    obtain ⟨lead, word, rest, hw, hrest, hended⟩ := hends.word
    exact add_end hw hended hrest houter rfl

end Builder

/-! ### Trees -/

namespace Node

/-- **The nodes that segments make up.** -/
inductive Reads (tags : TagTable) : List Segment → List Node → Prop
  | nil : Reads tags [] []
  | text {s : Segment} {segs : List Segment} {ns : List Node} : s.kind = .text →
      Reads tags segs ns → Reads tags (s :: segs) (.text (String.ofList s.body) :: ns)
  | comment {s : Segment} {segs : List Segment} {ns : List Node} : s.kind = .comment →
      Reads tags segs ns → Reads tags (s :: segs) ns
  | output {s : Segment} {o : Output} {segs : List Segment} {ns : List Node} : s.Outputs o →
      Reads tags segs ns → Reads tags (s :: segs) (.output o :: ns)
  | tag {s : Segment} {reader : TagReader} {head : TagHead} {segs : List Segment}
      {ns : List Node} : s.Heads tags reader head → reader.hasEnd = false →
      Reads tags segs ns → Reads tags (s :: segs) (.tag head [] :: ns)
  | block {s t : Segment} {reader : TagReader} {head : TagHead} {inner segs : List Segment}
      {content ns : List Node} : s.Heads tags reader head → reader.hasEnd = true →
      Reads tags inner content → t.Ends tags head.name → Reads tags segs ns →
      Reads tags (s :: (inner ++ t :: segs))
        (.tag { head with span := head.span.join t.span } content :: ns)

variable {tags : TagTable} {us vs segs : List Segment} {ns ms : List Node}

lemma Reads.append (h : Reads tags us ns) (h' : Reads tags vs ms) :
    Reads tags (us ++ vs) (ns ++ ms) := by
  induction h with
  | nil => exact h'
  | text hs _ ih => exact .text hs ih
  | comment hs _ ih => exact .comment hs ih
  | output ho _ ih => exact .output ho ih
  | tag hhead hend _ ih => exact .tag hhead hend ih
  | block hhead hend hinner hends _ _ ih =>
    rw [List.cons_append, List.append_assoc, List.cons_append, List.cons_append]
    exact .block hhead hend hinner hends ih

/-- What makes up nodes is read, whatever has been read before. -/
lemma Reads.foldlM_eq (h : Reads tags segs ns) (b : Builder) :
    segs.foldlM (Builder.add tags) b = .ok ⟨b.nodes ++ ns, b.outer⟩ := by
  induction h generalizing b with
  | nil =>
    rw [List.append_nil]
    rfl
  | text hs _ ih =>
    rw [Builder.foldlM_add (Builder.Added.text hs).add_eq, ih]
    simp [Builder.push]
  | comment hs _ ih => rw [Builder.foldlM_add (Builder.Added.comment hs).add_eq, ih]
  | output ho _ ih =>
    rw [Builder.foldlM_add (Builder.Added.output ho).add_eq, ih]
    simp [Builder.push]
  | tag hhead hend _ ih =>
    rw [Builder.foldlM_add (Builder.Added.tag hhead hend).add_eq, ih]
    simp [Builder.push]
  | block hhead hend _ hends _ ihinner ih =>
    rw [Builder.foldlM_add (Builder.Added.opened hhead hend).add_eq, List.foldlM_append,
      bind_eq_of_ok (ihinner _), Builder.foldlM_add (Builder.Added.closed hends rfl).add_eq, ih]
    simp [Builder.enter]

end Node

namespace Builder

variable {tags : TagTable} {b b' : Builder} {s : Segment} {us vs : List Segment}

/-- **What the builder holds** has been made up by the segments read so far, up to the tags that
are still open. -/
inductive Holds (tags : TagTable) : List Segment → Builder → Prop
  | ground {us : List Segment} {ns : List Node} : Node.Reads tags us ns → Holds tags us ⟨ns, []⟩
  | level {us vs : List Segment} {before ns : List Node} {outer : List (List Node × TagHead)}
      {s : Segment} {reader : TagReader} {head : TagHead} : Holds tags us ⟨before, outer⟩ →
      s.Heads tags reader head → reader.hasEnd = true → Node.Reads tags vs ns →
      Holds tags (us ++ s :: vs) ⟨ns, (before, head) :: outer⟩

lemma Holds.append {ns : List Node} (h : Holds tags us b) (hvs : Node.Reads tags vs ns) :
    Holds tags (us ++ vs) { b with nodes := b.nodes ++ ns } := by
  cases h with
  | ground hus => exact .ground (hus.append hvs)
  | level hus hhead hend hinner =>
    rw [List.append_assoc, List.cons_append]
    exact .level hus hhead hend (hinner.append hvs)

/-- Every step of the builder keeps this so. -/
lemma Holds.add (h : Holds tags us b) (hadd : b.add tags s = .ok b') :
    Holds tags (us ++ [s]) b' := by
  cases added_of_add hadd with
  | text hs => exact h.append (.text hs .nil)
  | comment hs => simpa using h.append (.comment hs .nil)
  | output ho => exact h.append (.output ho .nil)
  | tag hhead hend => exact h.append (.tag hhead hend .nil)
  | opened hhead hend => exact .level h hhead hend .nil
  | closed hends houter =>
    cases h with
    | ground => cases houter
    | level hus hhead hend hinner =>
      cases houter
      rw [List.append_assoc, List.cons_append]
      exact hus.append (.block hhead hend hinner hends .nil)

end Builder

namespace Node

variable {tags : TagTable} {segs : List Segment} {ns : List Node}

lemma reads_of_foldlM {b : Builder} (h : segs.foldlM (Builder.add tags) .empty = .ok b)
    (hfinish : b.finish = .ok ns) : Reads tags segs ns := by
  have hholds := foldlM_tracks (Builder.Holds tags) (fun _ _ _ _ => Builder.Holds.add)
    (.ground .nil) h
  rw [List.nil_append] at hholds
  cases hholds with
  | ground hsegs =>
    cases hfinish
    exact hsegs
  | level => cases hfinish

/-- A template is read as the nodes that its segments make up. -/
lemma read_eq_ok_iff {source : String} : read tags source = .ok ns ↔
    ∃ segs, Segment.Cuts [] 0 1 source.toList segs ∧ Reads tags segs ns := by
  constructor
  · intro h
    obtain ⟨segs, hsegs, h⟩ := ok_of_bind h
    obtain ⟨b, hb, hfinish⟩ := ok_of_bind h
    exact ⟨segs, Segment.segments_eq_ok_iff.1 hsegs, reads_of_foldlM hb hfinish⟩
  · rintro ⟨segs, hcuts, hreads⟩
    rw [read, bind_eq_of_ok (Segment.segments_eq_ok_iff.2 hcuts),
      bind_eq_of_ok (hreads.foldlM_eq .empty)]
    rfl

/-! ### Nested tags -/

lemma Reads.parses (h : Reads tags segs ns) : ∀ s ∈ segs, s.Parses tags := by
  induction h with
  | nil => simp
  | text hs _ ih | comment hs _ ih =>
    rw [List.forall_mem_cons]
    exact ⟨by rw [Segment.Parses, hs]; trivial, ih⟩
  | output ho _ ih =>
    rw [List.forall_mem_cons]
    exact ⟨by rw [Segment.Parses, ho.kind]; exact ⟨_, ho⟩, ih⟩
  | tag hhead _ _ ih =>
    rw [List.forall_mem_cons]
    exact ⟨hhead.parses, ih⟩
  | block hhead _ _ hends _ ihinner ih =>
    rw [List.forall_mem_cons, List.forall_mem_append, List.forall_mem_cons]
    exact ⟨hhead.parses, ihinner, hends.parses, ih⟩

lemma Reads.nested (h : Reads tags segs ns) : Segment.Nested (segs.map (Segment.role tags)) := by
  induction h with
  | nil => exact .nil
  | text hs _ ih | comment hs _ ih =>
    rw [List.map_cons, Segment.role_of_ne (by simp [hs])]
    exact .leaf ih
  | output ho _ ih =>
    rw [List.map_cons, Segment.role_of_ne (by simp [ho.kind])]
    exact .leaf ih
  | tag hhead hend _ ih =>
    rw [List.map_cons, hhead.role_eq, hend]
    exact .leaf ih
  | block hhead hend _ hends _ ihinner ih =>
    rw [List.map_cons, List.map_append, List.map_cons, hhead.role_eq, hend, hends.role_eq]
    exact .block _ ihinner ih

lemma exists_reads_cons {s : Segment} (hrole : s.role tags = .leaf) (hparses : s.Parses tags)
    (h : Reads tags segs ns) : ∃ ms, Reads tags (s :: segs) ms := by
  cases hkind : s.kind with
  | text => exact ⟨_, .text hkind h⟩
  | comment => exact ⟨_, .comment hkind h⟩
  | output =>
    rw [Segment.Parses, hkind] at hparses
    obtain ⟨o, ho⟩ := hparses
    exact ⟨_, .output ho h⟩
  | tag =>
    obtain ⟨reader, head, hhead⟩ | ⟨name, hends⟩ := hparses.heads_or_ends hkind
    · cases hend : reader.hasEnd with
      | false => exact ⟨_, .tag hhead hend h⟩
      | true =>
        rw [hhead.role_eq, hend] at hrole
        cases hrole
    · cases hends.role_eq.symm.trans hrole

/-- Segments that can be read by themselves make up nodes if their tags are nested. -/
lemma exists_reads {roles : List Segment.Role} (h : Segment.Nested roles) :
    ∀ {segs : List Segment}, segs.map (Segment.role tags) = roles →
      (∀ s ∈ segs, s.Parses tags) → ∃ ns, Reads tags segs ns := by
  induction h with
  | nil =>
    intro segs hroles _
    rw [List.map_eq_nil_iff] at hroles
    subst hroles
    exact ⟨[], .nil⟩
  | leaf _ ih =>
    intro segs hroles hparses
    obtain ⟨s, segs, rfl, hs, hroles⟩ := List.map_eq_cons_iff.1 hroles
    rw [List.forall_mem_cons] at hparses
    obtain ⟨ns, hns⟩ := ih hroles hparses.2
    exact exists_reads_cons hs hparses.1 hns
  | block name _ _ ihinner ih =>
    intro segs hroles hparses
    obtain ⟨s, segs, rfl, hs, hroles⟩ := List.map_eq_cons_iff.1 hroles
    obtain ⟨inner, segs, rfl, hinner, hroles⟩ := List.map_eq_append_iff.1 hroles
    obtain ⟨t, segs, rfl, ht, hroles⟩ := List.map_eq_cons_iff.1 hroles
    rw [List.forall_mem_cons, List.forall_mem_append, List.forall_mem_cons] at hparses
    obtain ⟨hsparses, hparses, htparses, hmore⟩ := hparses
    obtain ⟨content, hcontent⟩ := ihinner hinner hparses
    obtain ⟨ns, hns⟩ := ih hroles hmore
    obtain ⟨reader, head, hhead, hend, rfl⟩ := hsparses.heads hs
    exact ⟨_, .block hhead hend hcontent (htparses.ends ht) hns⟩

end Node

/-! ### Sources of nodes -/

/-- Only blanks can be trimmed to nothing. -/
lemma Text.isBlank_of_trim {cs : List Char} (h : (trim cs).isEmpty = true) :
    ∀ c ∈ cs, isBlank c = true := by
  rw [List.isEmpty_iff, trim, List.reverse_eq_nil_iff, trimStart, List.dropWhile_eq_nil_iff] at h
  intro c hc
  rw [← List.takeWhile_append_dropWhile (p := isBlank) (l := cs), List.mem_append] at hc
  obtain hc | hc := hc
  · exact List.mem_takeWhile_imp hc
  · exact h c (List.mem_reverse.2 hc)

namespace Segment

/-- The tag at the front of a text. -/
def firstTag (cs : List Char) : List Char :=
  match untilClose '%' '\x7d' (cs.drop 2) with
  | some (body, _) => source .tag body
  | none => cs

/-- The tag at the end of a text. -/
def lastTag (cs : List Char) : List Char :=
  match untilClose '%' '\x7b' (cs.reverse.drop 2) with
  | some (body, _) => source .tag body.reverse
  | none => cs

lemma firstTag_append {body : List Char} (h : ¬ ['%', '\x7d'] <:+: body ++ ['%'])
    (rest : List Char) : firstTag (source .tag body ++ rest) = source .tag body := by
  have htail : (source .tag body ++ rest).drop 2 = body ++ '%' :: '\x7d' :: rest := by
    simp [source]
  rw [firstTag, htail, untilClose_of_notInfix rest h]

lemma lastTag_append (rest : List Char) {body : List Char} (h : '\x7b' ∉ body) :
    lastTag (rest ++ source .tag body) = source .tag body := by
  have htail : (rest ++ source .tag body).reverse.drop 2 =
      body.reverse ++ '%' :: '\x7b' :: rest.reverse := by
    simp [source]
  have hnot : ¬ ['%', '\x7b'] <:+: body.reverse ++ ['%'] := fun hinside => by
    have hmem := hinside.subset (List.mem_cons_of_mem '%' List.mem_cons_self)
    simp [h] at hmem
  rw [lastTag, htail, untilClose_of_notInfix rest.reverse hnot]
  simp

/-- The end of a tag has no opening delimiter in it. -/
lemma Ends.notMem {tags : TagTable} {s : Segment} {name : String} (h : s.Ends tags name) :
    '\x7b' ∉ s.body := by
  obtain ⟨lead, word, rest, hw, hrest, _⟩ := h.word
  have hbody : s.body = lead ++ (word ++ rest) := by
    rw [← hw.lead, ← hw.word, ← hw.rest, List.takeWhile_append_dropWhile,
      List.takeWhile_append_dropWhile]
  rw [hbody, List.mem_append, List.mem_append]
  rintro (hmem | hmem | hmem)
  · exact absurd (List.mem_takeWhile_imp (hw.lead ▸ hmem)) (by decide)
  · exact absurd (List.mem_takeWhile_imp (hw.word ▸ hmem)) (by decide)
  · exact absurd (Text.isBlank_of_trim hrest _ hmem) (by decide)

end Segment

/-- The tag has content, and an end tag behind it. -/
def TagHead.isBlock (tags : TagTable) (head : TagHead) : Bool :=
  (tags.get? head.name).any (·.hasEnd)

lemma Segment.Heads.isBlock_eq {tags : TagTable} {s : Segment} {reader : TagReader}
    {head : TagHead} (h : s.Heads tags reader head) : head.isBlock tags = reader.hasEnd := by
  rw [TagHead.isBlock, h.known]
  rfl

mutual

/-- **The source of the node**, in pieces: a text as it is, an output as the part of the template
that it covers, and a tag that has content as its first tag, its content and its end tag. -/
def Node.flatten (tags : TagTable) (template : List Char) : Node → List (List Char)
  | .text s => [s.toList]
  | .output o => [Text.slice template o.span]
  | .tag head content =>
    let whole := Text.slice template head.span
    if head.isBlock tags then
      Segment.firstTag whole :: (flattenAll tags template content ++ [Segment.lastTag whole])
    else [whole]

/-- The sources of the nodes, in pieces. -/
def flattenAll (tags : TagTable) (template : List Char) : List Node → List (List Char)
  | [] => []
  | n :: rest => n.flatten tags template ++ flattenAll tags template rest

end

namespace Segment

/-- The sources of the segments other than comments. -/
def visible (segs : List Segment) : List (List Char) :=
  (segs.filter (·.kind ≠ .comment)).map fun s => source s.kind s.body

lemma visible_cons (s : Segment) (segs : List Segment) : visible (s :: segs) =
    if s.kind = .comment then visible segs else source s.kind s.body :: visible segs := by
  rw [visible, List.filter_cons]
  split <;> simp_all [visible]

lemma visible_append (us vs : List Segment) : visible (us ++ vs) = visible us ++ visible vs := by
  simp [visible]

end Segment

namespace Node

/-- The node stands anywhere in the nodes. -/
inductive Within (n : Node) : List Node → Prop
  | here {ns : List Node} : n ∈ ns → Within n ns
  | inside {head : TagHead} {content ns : List Node} : .tag head content ∈ ns → Within n content →
      Within n ns

/-- The place of the node, if it has kept it. -/
def span? : Node → Option Span
  | .text _ => none
  | .output o => some o.span
  | .tag head _ => some head.span

/-- The segments that make up a single node. -/
inductive Makes (tags : TagTable) : List Segment → Node → Prop
  | text {s : Segment} : s.kind = .text → Makes tags [s] (.text (String.ofList s.body))
  | output {s : Segment} {o : Output} : s.Outputs o → Makes tags [s] (.output o)
  | tag {s : Segment} {reader : TagReader} {head : TagHead} : s.Heads tags reader head →
      reader.hasEnd = false → Makes tags [s] (.tag head [])
  | block {s t : Segment} {reader : TagReader} {head : TagHead} {inner : List Segment}
      {content : List Node} : s.Heads tags reader head → reader.hasEnd = true →
      Reads tags inner content → t.Ends tags head.name →
      Makes tags (s :: (inner ++ [t])) (.tag { head with span := head.span.join t.span } content)

variable {tags : TagTable} {segs : List Segment} {ns : List Node} {n : Node}

lemma within_cons_iff {m : Node} : Within n (m :: ns) ↔
    n = m ∨ (∃ head content, m = .tag head content ∧ Within n content) ∨ Within n ns := by
  constructor
  · rintro (hmem | ⟨hmem, hn⟩)
    · obtain rfl | hmem := List.mem_cons.1 hmem
      · exact .inl rfl
      · exact .inr (.inr (.here hmem))
    · obtain hm | hmem := List.mem_cons.1 hmem
      · exact .inr (.inl ⟨_, _, hm.symm, hn⟩)
      · exact .inr (.inr (.inside hmem hn))
  · rintro (rfl | ⟨head, content, rfl, hn⟩ | hn)
    · exact .here List.mem_cons_self
    · exact .inside List.mem_cons_self hn
    · cases hn with
      | here hmem => exact .here (List.mem_cons_of_mem _ hmem)
      | inside hmem hn => exact .inside (List.mem_cons_of_mem _ hmem) hn

lemma not_within_nil : ¬ Within n [] := by
  rintro (hmem | ⟨hmem, _⟩) <;> cases hmem

lemma Within.mono {ms : List Node} (h : Within n ns) (hns : ns ⊆ ms) : Within n ms := by
  cases h with
  | here hmem => exact .here (hns hmem)
  | inside hmem hn => exact .inside (hns hmem) hn

/-- Any node is made up by segments that stand together. -/
lemma Reads.makes (h : Reads tags segs ns) (hn : Within n ns) :
    ∃ before mid after, segs = before ++ (mid ++ after) ∧ Makes tags mid n := by
  have first {s : Segment} {segs : List Segment} (hs : Makes tags [s] n) :
      ∃ before mid after, s :: segs = before ++ (mid ++ after) ∧ Makes tags mid n :=
    ⟨[], [s], segs, rfl, hs⟩
  have later (vs : List Segment) {us segs : List Segment} (hus : us = vs ++ segs)
      (hn : ∃ before mid after, segs = before ++ (mid ++ after) ∧ Makes tags mid n) :
      ∃ before mid after, us = before ++ (mid ++ after) ∧ Makes tags mid n := by
    obtain ⟨before, mid, after, rfl, hmid⟩ := hn
    exact ⟨vs ++ before, mid, after, by rw [hus, List.append_assoc], hmid⟩
  induction h with
  | nil => exact absurd hn not_within_nil
  | comment _ _ ih => exact later [_] rfl (ih hn)
  | text hs _ ih =>
    obtain rfl | ⟨_, _, hm, _⟩ | hn := within_cons_iff.1 hn
    · exact first (.text hs)
    · cases hm
    · exact later [_] rfl (ih hn)
  | output ho _ ih =>
    obtain rfl | ⟨_, _, hm, _⟩ | hn := within_cons_iff.1 hn
    · exact first (.output ho)
    · cases hm
    · exact later [_] rfl (ih hn)
  | tag hhead hend _ ih =>
    obtain rfl | ⟨_, _, hm, hn⟩ | hn := within_cons_iff.1 hn
    · exact first (.tag hhead hend)
    · cases hm
      exact absurd hn not_within_nil
    · exact later [_] rfl (ih hn)
  | @block s t _ _ inner segs _ _ hhead hend hinner hends _ ihinner ih =>
    obtain rfl | ⟨_, _, hm, hn⟩ | hn := within_cons_iff.1 hn
    · exact ⟨[], s :: (inner ++ [t]), segs, by simp, .block hhead hend hinner hends⟩
    · cases hm
      obtain ⟨before, mid, after, rfl, hmid⟩ := ihinner hn
      exact ⟨s :: before, mid, after ++ t :: segs, by simp, hmid⟩
    · exact later (s :: (inner ++ [t])) (by simp) (ih hn)

/-- A node that has kept its place covers the segments that make it up. -/
lemma Makes.span_eq {offset : Nat} {span : Span} (h : Makes tags segs n)
    (hplaced : Segment.Placed offset segs) (hspan : n.span? = some span) :
    span = ⟨offset, offset + bytes (Segment.sources segs)⟩ := by
  cases h with
  | text => cases hspan
  | output ho =>
    cases hspan
    rw [ho.span, Segment.span_eq, hplaced.1]
    simp
  | tag hhead =>
    cases hspan
    rw [hhead.span, Segment.span_eq, hplaced.1]
    simp
  | block hhead =>
    cases hspan
    rw [← hplaced.join_eq, hhead.span]

/-- Nodes cover nothing beyond the segments that make them up. -/
lemma Reads.span_within {offset : Nat} {span : Span} (h : Reads tags segs ns)
    (hplaced : Segment.Placed offset segs) (hn : Within n ns) (hspan : n.span? = some span) :
    offset ≤ span.start ∧ span.stop ≤ offset + bytes (Segment.sources segs) := by
  obtain ⟨before, mid, after, rfl, hmid⟩ := h.makes hn
  obtain ⟨_, hplaced⟩ := Segment.placed_append_iff.1 hplaced
  obtain ⟨hplaced, _⟩ := Segment.placed_append_iff.1 hplaced
  rw [hmid.span_eq hplaced hspan, Segment.sources_append, Segment.sources_append,
    Text.bytes_append, Text.bytes_append]
  dsimp only
  omega

/-- The sources of the segments that nodes are made up of are found again in the nodes. -/
lemma Reads.flattenAll_eq {template : List Char} (h : Reads tags segs ns)
    (hstand : Segment.Stand template segs) :
    flattenAll tags template ns = Segment.visible segs := by
  induction h with
  | nil => rfl
  | @text s segs ns hs _ ih =>
    have hrest := ih hstand.of_cons.2
    simp [flattenAll, flatten, Segment.visible_cons, hs, hrest, Segment.source]
  | comment hs _ ih =>
    have hrest := ih hstand.of_cons.2
    simp [Segment.visible_cons, hs, hrest]
  | output ho _ ih =>
    obtain ⟨hs, hrest⟩ := hstand.of_cons
    simp [flattenAll, flatten, Segment.visible_cons, ho.kind, ho.span, hs.slice_eq, ih hrest]
  | tag hhead hend _ ih =>
    obtain ⟨hs, hrest⟩ := hstand.of_cons
    simp [flattenAll, flatten, Segment.visible_cons, hhead.kind, hhead.span, hs.slice_eq, ih hrest,
      hhead.isBlock_eq, hend]
  | @block s t reader head inner segs content ns hhead hend _ hends _ ihinner ih =>
    have hsplit : s :: (inner ++ t :: segs) = s :: (inner ++ [t]) ++ segs := by simp
    rw [hsplit] at hstand
    obtain ⟨hblock, hrest⟩ := hstand.of_append
    have hcontent := ihinner hblock.of_cons.2.of_append.1
    have hwhole : Text.slice template (head.span.join t.span) = Segment.source .tag s.body ++
        (Segment.sources inner ++ Segment.source .tag t.body) := by
      rw [hhead.span, hblock.slice_join_eq]
      simp [hhead.kind, hends.kind]
    have hfirst : Segment.firstTag (Text.slice template (head.span.join t.span)) =
        Segment.source .tag s.body := by
      have hclosed := hblock.closed s List.mem_cons_self
      rw [hhead.kind] at hclosed
      rw [hwhole]
      exact Segment.firstTag_append (hclosed (by decide)) _
    have hlast : Segment.lastTag (Text.slice template (head.span.join t.span)) =
        Segment.source .tag t.body := by
      rw [hwhole, ← List.append_assoc]
      exact Segment.lastTag_append _ hends.notMem
    have hend : TagHead.isBlock tags { head with span := head.span.join t.span } = true :=
      hhead.isBlock_eq.trans hend
    rw [flattenAll, flatten, hend, ih hrest, hcontent, hfirst, hlast]
    simp [Segment.visible_cons, Segment.visible_append, hhead.kind, hends.kind]

/-- **The tree is faithful to the segments.** Their sources are found again in the nodes, no text
has an opening delimiter in it, and a tag that has content reaches from where it is opened to where
it is closed. -/
structure Faithful (tags : TagTable) (template : List Char) (segs : List Segment)
    (ns : List Node) : Prop where
  flatten : flattenAll tags template ns = Segment.visible segs
  plain : ∀ s, Within (.text s) ns → Segment.Plain s.toList
  block : ∀ head content, Within (.tag head content) ns → head.isBlock tags = true →
    ∃ before s inner t after, segs = before ++ (s :: (inner ++ [t]) ++ after) ∧
      s.role tags = .opens head.name ∧ Segment.Nested (inner.map (Segment.role tags)) ∧
      t.role tags = .closes head.name ∧ head.span = ⟨s.span.start, t.span.stop⟩ ∧
      flattenAll tags template content = Segment.visible inner ∧
      ∀ n, Within n content → ∀ span, n.span? = some span →
        head.span.start ≤ span.start ∧ span.stop ≤ head.span.stop

lemma Reads.plain_of_within {template : List Char} {line : Nat} {s : String}
    (h : Reads tags segs ns) (hcuts : Segment.Cuts [] 0 line template segs)
    (hs : Within (.text s) ns) :
    Segment.Plain s.toList := by
  obtain ⟨before, mid, after, rfl, hmid⟩ := h.makes hs
  cases hmid with
  | @text s hkind =>
    rw [String.toList_ofList]
    exact hcuts.plain s (by simp) hkind

lemma Reads.encloses {template : List Char} (h : Reads tags segs ns)
    (hstand : Segment.Stand template segs) {head : TagHead} {content : List Node}
    (hn : Within (.tag head content) ns) (hblock : head.isBlock tags = true) :
    ∃ before s inner t after, segs = before ++ (s :: (inner ++ [t]) ++ after) ∧
      s.role tags = .opens head.name ∧ Segment.Nested (inner.map (Segment.role tags)) ∧
      t.role tags = .closes head.name ∧ head.span = ⟨s.span.start, t.span.stop⟩ ∧
      flattenAll tags template content = Segment.visible inner ∧
      ∀ n, Within n content → ∀ span, n.span? = some span →
        head.span.start ≤ span.start ∧ span.stop ≤ head.span.stop := by
  obtain ⟨before, mid, after, rfl, hmid⟩ := h.makes hn
  have hmidstand := hstand.of_append.2.of_append.1
  obtain ⟨_, _, _, hplaced⟩ := hmidstand.place
  cases hmid with
  | tag hhead hend =>
    rw [hhead.isBlock_eq, hend] at hblock
    cases hblock
  | @block s t reader head inner content hhead hend hinner hends =>
    refine ⟨before, s, inner, t, after, rfl, ?_, hinner.nested, hends.role_eq, ?_, ?_, ?_⟩
    · rw [hhead.role_eq, hend]
      rfl
    · exact (congrArg (·.join t.span) hhead.span).trans hplaced.join_eq_ends
    · exact hinner.flattenAll_eq hmidstand.of_cons.2.of_append.1
    · intro n hn span hspan
      have hjoin := (congrArg (·.join t.span) hhead.span).trans hplaced.join_eq
      have hinside := hinner.span_within (Segment.placed_append_iff.1 hplaced.2).1 hn hspan
      show (head.span.join t.span).start ≤ _ ∧ _ ≤ (head.span.join t.span).stop
      rw [hjoin, Segment.sources_cons, Segment.sources_append, Text.bytes_append, Text.bytes_append]
      dsimp only
      omega

/-- What has been read is faithful to what the template has been cut into. -/
lemma Reads.faithful {template : List Char} {line : Nat} (h : Reads tags segs ns)
    (hcuts : Segment.Cuts [] 0 line template segs) : Faithful tags template segs ns where
  flatten := h.flattenAll_eq hcuts.stand
  plain _ hs := h.plain_of_within hcuts hs
  block _ _ hn hblock := h.encloses hcuts.stand hn hblock

end Node

/-- **The document parser accepts exactly the balanced templates and loses nothing.** Whatever tags
there are, a template is read if it can be cut to its end, each segment can be read by itself and
the tags are nested, and only then; the nodes are then faithful to the segments. A template that
cannot be cut to its end is cut up to the first delimiter that is never closed, and the place of
that delimiter is reported. -/
theorem templates_exact (tags : TagTable) (source : String) :
    ((∃ ns, Node.read tags source = .ok ns) ↔
      ∃ segs, Segment.Cuts [] 0 1 source.toList segs ∧ (∀ s ∈ segs, s.Parses tags) ∧
        Segment.Nested (segs.map (Segment.role tags))) ∧
    (∀ ns, Node.read tags source = .ok ns →
      ∃ segs, Segment.Cuts [] 0 1 source.toList segs ∧
        Node.Faithful tags source.toList segs ns) ∧
    ((∃ segs, Segment.Cuts [] 0 1 source.toList segs) ∨
      ∃ segs left, Segment.Cuts left 0 1 source.toList segs ∧ Segment.Unclosed left) ∧
    ∀ segs left, Segment.Cuts left 0 1 source.toList segs → Segment.Unclosed left →
      Node.read tags source = .error ⟨.unclosedDelimiter, 1 + newlines (Segment.sources segs),
        ⟨bytes (Segment.sources segs), bytes (Segment.sources segs)⟩, []⟩ := by
  refine ⟨⟨?_, ?_⟩, ?_, Segment.cuts_or_unclosed _ 0 1, ?_⟩
  · rintro ⟨ns, h⟩
    obtain ⟨segs, hcuts, hreads⟩ := Node.read_eq_ok_iff.1 h
    exact ⟨segs, hcuts, hreads.parses, hreads.nested⟩
  · rintro ⟨segs, hcuts, hparses, hnested⟩
    obtain ⟨ns, hreads⟩ := Node.exists_reads hnested rfl hparses
    exact ⟨ns, Node.read_eq_ok_iff.2 ⟨segs, hcuts, hreads⟩⟩
  · intro ns h
    obtain ⟨segs, hcuts, hreads⟩ := Node.read_eq_ok_iff.1 h
    exact ⟨segs, hcuts, hreads.faithful hcuts⟩
  · intro segs left hcuts hleft
    rw [Node.read, hcuts.segments_eq, Segment.segments_of_unclosed hleft, Nat.zero_add]
    rfl

end Stencil
