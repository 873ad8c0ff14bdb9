import Mathlib
import Stencil.Proofs.Grammar.Template
import Stencil.Proofs.Lexing.Tiling
import Stencil.Proofs.Reporting

/-!
Where the errors of a template point. The span of an error **marks** a part of the template that
starts on the line of the error (`Text.Marks`), or is empty and stands right behind a token where an
expression breaks off; the spans of related places mark parts of the template as well
(`SyntaxError.Located`).

* A piece **lies** in the template at its offset and on its line (`Segment.Lies`), and so do the
  parts of it that are cut into tokens (`Text.Part`), and the tokens (`Token.Inside`).
* A step of the builder fails at the piece, at a tag that is still open, or as reading the tokens
  of the piece does (`Builder.failsWith_add`). With the unclosed delimiters and the tags that are
  open in the end these are all errors (`Node.failsWith_ofSource`).

The line that the message names is therefore the line on which the error is marked, but for
expressions that break off: there it is the line on which the last token starts, while the mark
stands where that token ends. The main result is `error_lines`.
-/

namespace Stencil

open Text (Span bytes newlines)

/-! ### Parts of a text -/

namespace Text

/-- The line of the byte at an offset. -/
def lineAt (cs : List Char) (offset : Nat) : Nat :=
  1 + newlines (takeBytes offset cs)

lemma lineAt_append (before after : List Char) :
    lineAt (before ++ after) (bytes before) = 1 + newlines before := by
  rw [lineAt, takeBytes_append]

/-- **The span fits into the text**: it starts between two characters or at one of the ends, and
what a report underlines ends with the text at the latest. -/
structure Span.Fits (cs : List Char) (s : Span) : Prop where
  start : ∃ before after, cs = before ++ after ∧ s.start = bytes before
  stop : s.start + s.labelLength ≤ bytes cs

/-- **The span marks a part of the text** that starts on the line; the part may be empty if the text
goes on behind it. -/
def Marks (cs : List Char) (line : Nat) (s : Span) : Prop :=
  ∃ before mid after, cs = before ++ (mid ++ after) ∧ mid ++ after ≠ [] ∧
    line = 1 + newlines before ∧ s = ⟨bytes before, bytes before + bytes mid⟩

/-- The part stands in the text, at the offset and on the line, and the text goes on behind it. -/
def Part (cs : List Char) (offset line : Nat) (part : List Char) : Prop :=
  ∃ before after, cs = before ++ (part ++ after) ∧ after ≠ [] ∧ offset = bytes before ∧
    line = 1 + newlines before

variable {cs : List Char} {offset line : Nat} {s : Span}

lemma Marks.line_eq (h : Marks cs line s) : line = lineAt cs s.start := by
  obtain ⟨before, mid, after, rfl, _, rfl, rfl⟩ := h
  exact (lineAt_append before _).symm

lemma Marks.fits (h : Marks cs line s) : s.Fits cs := by
  obtain ⟨before, mid, after, rfl, hne, rfl, rfl⟩ := h
  refine ⟨⟨before, mid ++ after, rfl, rfl⟩, ?_⟩
  have hpos := Token.bytes_pos hne
  simp only [Span.labelLength, Span.length, bytes_append] at hpos ⊢
  omega

end Text

open Text (Marks Part)

/-! ### Tokens -/

namespace Token

/-- **The token stands inside the text**, which goes on behind it. -/
structure Inside (cs : List Char) (t : Token) : Prop where
  stands : t.Stands cs 0 1
  stop : t.span.stop < bytes cs

variable {cs part : List Char} {offset line : Nat} {t : Token}

lemma Inside.marks (h : t.Inside cs) : Marks cs t.line t.span := by
  obtain ⟨before, trail, after, hcs, _, hline, hspan⟩ := h.stands.place
  rw [Nat.zero_add] at hspan
  refine ⟨before, t.text.toList ++ trail, after, by simpa using hcs, fun hnil => ?_, hline, hspan⟩
  have hstop := h.stop
  have hbytes := congrArg bytes hnil
  rw [hspan, hcs] at hstop
  simp only [Text.bytes_append, Text.bytes_nil] at hstop hbytes
  omega

/-- The tokens of a part stand inside the text. -/
lemma inside_of_tokenize {ts : List Token} (hpart : Part cs offset line part)
    (h : tokenize part offset line = .ok ts) : ∀ t ∈ ts, t.Inside cs := by
  obtain ⟨before, after, rfl, hne, rfl, rfl⟩ := hpart
  intro t ht
  have hstands := (tiles_of_tokenize h).2 t ht
  obtain ⟨front, trail, back, rfl, htrail, hline, hspan⟩ := hstands.place
  have hpos := bytes_pos hne
  refine ⟨⟨⟨before ++ front, trail, back ++ after, by simp, htrail, ?_, ?_⟩, hstands.named⟩, ?_⟩
  · rw [hline, Text.newlines_append, Nat.add_assoc]
  · rw [hspan, Nat.zero_add, Text.bytes_append before]
  · rw [hspan]
    simp only [Text.bytes_append]
    omega

/-- An expression that is not blank has tokens other than white space. -/
lemma significant_ne_nil {ts : List Token} (hcs : (Text.trim cs).isEmpty = false)
    (h : tokenize cs offset line = .ok ts) : significant ts ≠ [] := by
  intro hnil
  obtain ⟨ps, hps, hseen⟩ := lexes_of_tokenize h
  have hsolid : solid ps = [] := by
    have hchunks := significant_seen hseen
    rw [hnil] at hchunks
    exact List.map_eq_nil_iff.1 hchunks.symm
  have hhead := head_flat hps.apart.proper
  rw [hsolid, hps.flat_eq] at hhead
  have hblank : Text.trimStart cs = [] := List.head?_eq_none_iff.1 hhead
  rw [Text.trim, hblank] at hcs
  cases hcs

end Token

/-! ### Located errors -/

/-- **The error is located in the text**: it marks a part of it that starts on its line, or stands
behind a token since an expression breaks off; and all related places mark parts of the text. -/
structure SyntaxError.Located (cs : List Char) (e : SyntaxError) : Prop where
  here : e.cause ≠ .endOfExpression → Marks cs e.line e.span
  behind : e.cause = .endOfExpression → ∃ t : Token, t.Inside cs ∧ e.line = t.line ∧
    e.span = ⟨t.span.stop, t.span.stop⟩
  related : ∀ r ∈ e.related, ∃ line, Marks cs line r.2

open SyntaxError (Located Concerns OfTag)

section Locating

variable {cs part : List Char} {offset line : Nat} {span : Span} {cause : SyntaxCause}
  {ts : List Token} {e : SyntaxError}

lemma located_of_marks (hcause : cause ≠ .endOfExpression) (h : Marks cs line span) :
    Located cs ⟨cause, line, span, []⟩ :=
  ⟨fun _ => h, fun heq => absurd heq hcause, nofun⟩

lemma SyntaxError.Concerns.located (h : Concerns ts e) (hts : ∀ t ∈ ts, t.Inside cs) :
    Located cs e := by
  cases h with
  | token ht hcause => exact located_of_marks hcause (hts _ ht).marks
  | @behind t ht =>
    have hline : 1 ≤ t.line := by
      obtain ⟨_, _, _, _, _, hline, _⟩ := (hts t ht).stands.place
      omega
    exact ⟨fun hne => absurd rfl hne, fun _ => ⟨t, hts t ht, max_eq_right hline, rfl⟩, nofun⟩

lemma SyntaxError.OfTag.located (h : OfTag ⟨line, span⟩ ts e) (hplace : Marks cs line span)
    (hts : ∀ t ∈ ts, t.Inside cs) : Located cs e := by
  obtain ⟨cause, hcause, rfl⟩ | h := h
  · exact located_of_marks hcause hplace
  · exact h.located hts

/-- Where no token starts, the error is at the next character. -/
lemma Text.Part.failsWith_tokenize (hpart : Part cs offset line part) :
    FailsWith (Located cs) (Token.tokenize part offset line) := by
  intro e he
  obtain ⟨before, after, rfl, _, rfl, rfl⟩ := hpart
  obtain ⟨done, c, rest, _, rfl, _, _, rfl⟩ := Token.exists_of_tokenize he
  have hcause : (Token.scanError c (bytes before + bytes done)
      (1 + newlines before + newlines done)).cause ≠ .endOfExpression := by
    dsimp only [Token.scanError]
    split <;> simp
  refine located_of_marks hcause ⟨before ++ done, [c], rest ++ after, by simp, by simp, ?_, ?_⟩
  · rw [Text.newlines_append, Nat.add_assoc]
  · simp

end Locating

/-! ### Pieces -/

namespace Segment

variable {template : List Char} {s : Segment}

lemma source_ne_nil {kind : SegmentKind} (hkind : kind ≠ .text) (body : List Char) :
    source kind body ≠ [] := by
  intro hnil
  have hlength := congrArg List.length hnil
  simp [source_eq, SegmentKind.opening_length hkind] at hlength

/-- **The piece lies in the template**, at its offset and on its line. -/
def Lies (template : List Char) (s : Segment) : Prop :=
  ∃ before after, template = before ++ (source s.kind s.body ++ after) ∧ s.start = bytes before ∧
    s.line = 1 + newlines before

/-- The pieces that have been cut lie in the template. -/
lemma Cuts.lies {left : List Char} {segs : List Segment} (h : Cuts left 0 1 template segs) :
    ∀ s ∈ segs, s.Lies template := by
  intro s hs
  obtain ⟨us, vs, rfl⟩ := List.append_of_mem hs
  obtain ⟨mid, hus, hmid⟩ := h.split
  cases hmid with
  | @piece _ _ _ rest kind body _ hcut _ =>
    refine ⟨sources us, rest, ?_, Nat.zero_add _, rfl⟩
    rw [← hus.sources_append, ← first?_append (first?_eq_some_iff.2 hcut)]

lemma Lies.marks (h : s.Lies template) (hkind : s.kind ≠ .text) :
    Marks template s.line s.span := by
  obtain ⟨before, after, rfl, hstart, hline⟩ := h
  exact ⟨before, source s.kind s.body, after, rfl,
    List.append_ne_nil_of_left_ne_nil (source_ne_nil hkind s.body) after, hline,
    by rw [span_eq, hstart]⟩

/-- The end of the body of a piece stands in the template, before the closing delimiter. -/
lemma Lies.part {front part : List Char} (h : s.Lies template) (hkind : s.kind ≠ .text)
    (hbody : s.body = front ++ part) :
    Part template (s.bodyStart + bytes front) (s.line + newlines front) part := by
  obtain ⟨before, after, rfl, hstart, hline⟩ := h
  have hopening : bytes s.kind.opening = 2 ∧ newlines s.kind.opening = 0 ∧ s.kind.closing ≠ [] := by
    cases hs : s.kind with
    | text => exact absurd hs hkind
    | comment | output | tag => exact ⟨rfl, rfl, List.cons_ne_nil _ _⟩
  refine ⟨before ++ (s.kind.opening ++ front), s.kind.closing ++ after, ?_, by simp [hopening.2.2],
    ?_, ?_⟩
  · simp [source_eq, hbody]
  · simp [bodyStart, hkind, hstart, hopening.1, Nat.add_assoc]
  · simp only [hline, Text.newlines_append, hopening.2.1]
    omega

end Segment

/-! ### Building the tree -/

namespace Builder

variable {tags : TagSet} {template : List Char} {b : Builder} {s : Segment}

/-- The tags that are open have their places in the template. -/
def Opened (template : List Char) (b : Builder) : Prop :=
  ∀ level ∈ b.outer, Marks template level.2.line level.2.span

lemma Holds.opened {tags : TagTable} {us : List Segment} (h : Holds tags us b)
    (hus : ∀ s ∈ us, s.Lies template) : b.Opened template := by
  induction h with
  | ground => exact nofun
  | level _ hhead _ _ ih =>
    rw [List.forall_mem_append, List.forall_mem_cons] at hus
    refine List.forall_mem_cons.2 ⟨?_, ih hus.1⟩
    have hmarks := hus.2.1.marks (by simp [hhead.kind])
    rwa [← hhead.line, ← hhead.span] at hmarks

lemma failsWith_addOutput (hs : s.Lies template) (hkind : s.kind = .output) :
    FailsWith (Located template) (b.addOutput s) := by
  have htext : s.kind ≠ .text := by simp [hkind]
  have hbody : s.body = [] ++ s.body := rfl
  have hpart : Part template s.bodyStart s.line s.body := hs.part htext hbody
  rw [addOutput]
  split
  · exact .error (located_of_marks (by simp) (hs.marks htext))
  next hbody =>
    refine hpart.failsWith_tokenize.bind fun ts hts => ?_
    have hne := Token.significant_ne_nil (by simpa using hbody) hts
    refine FailsWith.bind (.mono (Expr.failsWith_ofTokens hne) fun e he => ?_) fun _ _ => .ok _
    exact he.located (Token.inside_of_tokenize hpart hts)

lemma failsWith_close (hs : s.Lies template) (hkind : s.kind = .tag) (hb : b.Opened template)
    (name : String) (rest : List Char) : FailsWith (Located template) (b.close s name rest) := by
  have hmarks := hs.marks (by simp [hkind])
  rw [close]
  split
  · exact .error (located_of_marks (by simp) hmarks)
  · split
    · exact .error (located_of_marks (by simp) hmarks)
    next before head outer houter =>
      split
      · exact .ok _
      · have hhead : Marks template head.line head.span := hb (before, head) (by simp [houter])
        exact .error ⟨fun _ => hmarks, by simp, by simpa using ⟨_, hhead⟩⟩

lemma failsWith_addTag (hs : s.Lies template) (hkind : s.kind = .tag) (hb : b.Opened template) :
    FailsWith (Located template) (b.addTag tags s) := by
  have htext : s.kind ≠ .text := by simp [hkind]
  have hmarks := hs.marks htext
  rw [addTag]
  dsimp only
  split
  · exact .error (located_of_marks (by simp) hmarks)
  · split
    · exact failsWith_close hs hkind hb _ _
    · split
      · exact .error (located_of_marks (by simp) hmarks)
      next reader hreader =>
        rw [TagSet.get?_table] at hreader
        obtain ⟨kind, _, rfl⟩ := Option.map_eq_some_iff.1 hreader
        have hbody : s.body = s.body.takeWhile Text.isBlank ++
            (s.body.dropWhile Text.isBlank).takeWhile isTagChar ++
            (s.body.dropWhile Text.isBlank).dropWhile isTagChar := by
          rw [List.append_assoc, List.takeWhile_append_dropWhile, List.takeWhile_append_dropWhile]
        have hpart := hs.part htext hbody
        refine hpart.failsWith_tokenize.bind fun ts hts => ?_
        refine FailsWith.bind (.mono (kind.failsWith_read _ ts) fun e he => ?_) fun _ _ => .ok _
        exact he.located hmarks (Token.inside_of_tokenize hpart hts)

/-- A piece that cannot be added fails at a place in the template. -/
lemma failsWith_add (hs : s.Lies template) (hb : b.Opened template) :
    FailsWith (Located template) (b.add tags s) := by
  rw [add]
  split
  next => exact .ok _
  next => exact .ok _
  next hkind => exact failsWith_addOutput hs hkind
  next hkind => exact failsWith_addTag hs hkind hb

lemma failsWith_finish (hb : b.Opened template) : FailsWith (Located template) b.finish := by
  rw [finish]
  split
  · exact .ok _
  next before head outer houter =>
    have hhead : Marks template head.line head.span := hb (before, head) (by simp [houter])
    exact .error (located_of_marks (by simp) hhead)

end Builder

/-! ### Templates -/

lemma Segment.failsWith_segments (cs : List Char) : FailsWith (Located cs) (segments cs 0 1) := by
  intro e he
  obtain ⟨segs, hcuts⟩ | ⟨segs, left, hcuts, hleft⟩ := cuts_or_unclosed cs 0 1
  · cases he.symm.trans (segments_eq_ok_iff.2 hcuts)
  · rw [hcuts.segments_eq, segments_of_unclosed hleft] at he
    cases he
    refine located_of_marks (by simp) ⟨sources segs, [], left, hcuts.sources_append.symm,
      hleft.ne_nil, rfl, ?_⟩
    simp

/-- **What is wrong with a template has a place in it.** -/
lemma Node.failsWith_ofSource (tags : TagSet) (source : String) :
    FailsWith (Located source.toList) (ofSource tags source) := by
  rw [ofSource, read]
  refine (Segment.failsWith_segments source.toList).bind fun segs hsegs => ?_
  have hlies := (Segment.segments_eq_ok_iff.1 hsegs).lies
  have hopened {us : List Segment} {b : Builder} (hus : us <+: segs)
      (hb : Builder.Holds tags us b) : b.Opened source.toList :=
    hb.opened fun s hs => hlies s (hus.subset hs)
  refine FailsWith.bind (.foldlM (I := Builder.Holds tags) (.ground .nil)
    (fun _ _ _ _ => Builder.Holds.add) fun us b s hfront hus => ?_) fun b hb => ?_
  · exact Builder.failsWith_add (hlies s (hfront.subset (by simp)))
      (hopened ((List.prefix_append us [s]).trans hfront) hus)
  · have hholds := foldlM_tracks (Builder.Holds tags) (fun _ _ _ _ => Builder.Holds.add)
      (.ground .nil) hb
    exact Builder.failsWith_finish (hopened List.prefix_rfl hholds)

/-! ### Lines -/

/-- A token ends as many lines after it starts as there are line ends in it. -/
lemma Token.Stands.lineAt_stop {cs : List Char} {t : Token} (h : t.Stands cs 0 1) :
    Text.lineAt cs t.span.stop = t.line + newlines (Text.slice cs t.span) := by
  obtain ⟨before, trail, after, rfl, _, hline, hspan⟩ := h.place
  have hsplit : before ++ (t.text.toList ++ (trail ++ after)) =
      before ++ (t.text.toList ++ trail) ++ after := by simp
  rw [Nat.zero_add] at hspan
  rw [hspan, hline, ← Text.bytes_append before, hsplit, Text.lineAt_append, Text.newlines_append,
    List.append_assoc before, Text.bytes_append before, Text.slice_append, Nat.add_assoc]

/-- **The line that an error names.** The message is the sentence of the cause with the line of the
error in it. That is the line on which the error is marked, unless an expression breaks off. In this
case the mark stands right behind the last token, and the line is the one on which that token
starts: as many lines before the mark as there are line ends in the token. -/
theorem error_lines (tags : TagSet) {source : String} {e : SyntaxError}
    (h : Node.ofSource tags source = .error e) :
    e.message = e.cause.message e.line ∧
    (e.cause ≠ .endOfExpression → e.line = Text.lineAt source.toList e.span.start) ∧
    (e.cause = .endOfExpression → ∃ t : Token, t.Stands source.toList 0 1 ∧ e.line = t.line ∧
      e.span.start = t.span.stop ∧ Text.lineAt source.toList e.span.start =
        e.line + newlines (Text.slice source.toList t.span)) := by
  have hlocated := Node.failsWith_ofSource tags source e h
  refine ⟨rfl, fun hcause => (hlocated.here hcause).line_eq, fun hcause => ?_⟩
  obtain ⟨t, ht, hline, hspan⟩ := hlocated.behind hcause
  exact ⟨t, ht.stands, hline, by rw [hspan], by rw [hspan, hline]; exact ht.stands.lineAt_stop⟩

/-- An output that cannot be read is where reading the template fails. -/
lemma Node.ofSource_of_output {tags : TagSet} {source : String} (before after : List Segment)
    {s : Segment} {b : Builder} (ts : List Token) {e : SyntaxError} (hkind : s.kind = .output)
    (hs : Segment.segments source.toList 0 1 = .ok (before ++ s :: after))
    (hb : before.foldlM (Builder.add tags) .empty = .ok b)
    (hbody : (Text.trim s.body).isEmpty = false)
    (hts : Token.tokenize s.body s.bodyStart s.line = .ok ts) (he : Expr.ofTokens ts = .error e) :
    ofSource tags source = .error e := by
  have hadd : b.add tags s = .error e := by
    rw [Builder.add, hkind]
    show b.addOutput s = _
    rw [Builder.addOutput, hbody, if_neg Bool.false_ne_true, bind_eq_of_ok hts, he]
    rfl
  rw [ofSource, read, bind_eq_of_ok hs, List.foldlM_append, bind_eq_of_ok hb, List.foldlM_cons,
    hadd]
  rfl

namespace Misplaced

/-- A closing parenthesis where an operand should be, on the second line. -/
def operand : String := "a\n\x7b\x7b ) \x7d\x7d"

lemma operand_read : Node.ofSource .standard operand =
    .error ⟨.unexpectedToken .parenClose ")", 2, ⟨5, 6⟩, []⟩ :=
  Node.ofSource_of_output [⟨.text, ['a', '\n'], 0, 1⟩] [] (s := ⟨.output, " ) ".toList, 2, 2⟩)
    [⟨.blank, " ", ⟨4, 5⟩, 2⟩, ⟨.parenClose, ")", ⟨5, 6⟩, 2⟩, ⟨.blank, " ", ⟨6, 7⟩, 2⟩]
    rfl (by decide +kernel) (Builder.foldlM_add (Builder.add_text rfl)) (by decide +kernel)
    (by decide +kernel) (by cbv)

/-- The line is the one of the parenthesis. -/
theorem operand_line : 2 = Text.lineAt operand.toList 5 :=
  (error_lines .standard operand_read).2.1 nofun

/-- A call that breaks off behind its opening parenthesis, which stands on another line than its
name. -/
def call : String := "\x7b\x7b f\n( \x7d\x7d"

lemma call_read : Node.ofSource .standard call =
    .error ⟨.endOfExpression, 1, ⟨6, 6⟩, []⟩ :=
  Node.ofSource_of_output [] [] (s := ⟨.output, " f\n( ".toList, 0, 1⟩)
    [⟨.blank, " ", ⟨2, 3⟩, 1⟩, ⟨.call, "f", ⟨3, 6⟩, 1⟩, ⟨.blank, " ", ⟨6, 7⟩, 2⟩]
    rfl (by decide +kernel) rfl (by decide +kernel) (by decide +kernel) (by cbv)

/-- The message names the line of the name, and the mark stands on the next one. -/
theorem call_line : ∃ e, Node.ofSource .standard call = .error e ∧
    e.message = "Unexpected end of expression on line 1." ∧
    Text.lineAt call.toList e.span.start = 2 :=
  ⟨_, call_read, by decide +kernel, by decide +kernel⟩

end Misplaced

end Stencil
