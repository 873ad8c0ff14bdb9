import Stencil.Proofs.Rereading
import Stencil.Proofs.Grammar.Signature
import Stencil.Proofs.Grammar.Template
import Mathlib

/-!
The texts that a template records beside its expressions: that of an output, which is its body
without the blanks around it; that of a call tag, which is what its tokens are written as, without
the blanks around it; and that of a default, which is what its tokens are written as without any
white space. Each of them comes from chunks of the template, of which some blanks are left out, and
so it reads back as the expression (`recorded_texts_faithful`).
-/

namespace Stencil

open Token

/-! ### Outputs -/

/-- The text of an output reads back. -/
lemma Segment.Outputs.readBack {s : Segment} {o : Output} (h : s.Outputs o) :
    Expr.ReadBack o.source o.expr := by
  obtain ⟨ts, hts, he⟩ := h.expr
  obtain ⟨ps, hlexes, hseen⟩ := lexes_of_tokenize hts
  rw [h.source, ← hlexes.flat_eq]
  exact Expr.readBack_trim hlexes.apart he (significant_seen hseen)

/-! ### Call tags -/

lemma seen_tight (ps : List Chunk) : (ps.map Chunk.tight).map Chunk.seen = ps.map Chunk.seen := by
  simp [Chunk.tight, Chunk.seen]

/-- The text of a call tag reads back. -/
lemma TagKind.readBack_of_callBlock {place : Place} {cs : List Char} {offset line : Nat}
    {ts : List Token} {args : TagArgs} (hts : tokenize cs offset line = .ok ts)
    (h : TagKind.callBlock.read place ts = .ok args) :
    ∃ e text, args = .callBlock e text ∧ Expr.ReadBack text e := by
  rw [read] at h
  split at h
  next => cases h
  next =>
    obtain ⟨e, he, h⟩ := ok_of_bind h
    cases h
    obtain ⟨ps, hlexes, hseen⟩ := lexes_of_tokenize hts
    have htight : ts.map seen = (ps.map Chunk.tight).map Chunk.seen := by rw [seen_tight, hseen]
    refine ⟨e, _, rfl, ?_⟩
    rw [toList_sources hseen]
    exact Expr.readBack_trim hlexes.apart.tight he (significant_seen htight)

/-! ### Defaults -/

namespace Signature

/-- The tokens of a default stand together in those of the signature. -/
lemma Parameters.default {us : List Token} {ps : List Parameter} (h : Parameters us ps)
    {p : Parameter} (hp : p ∈ ps) {d : Default} (hd : p.default = some d) :
    ∃ ds, ds <:+: us ∧ Expr.ofTokens ds = .ok d.expr ∧ d.text = sources ds := by
  have ofParameter {us : List Token} (h : p.Written us) :
      ∃ ds, ds <:+: us ∧ Expr.ofTokens ds = .ok d.expr ∧ d.text = sources ds := by
    cases h with
    | plain => cases hd
    | @default q a ds e _ _ _ he =>
      cases hd
      exact ⟨ds, ⟨[q, a], [], by simp⟩, he, rfl⟩
  induction h with
  | none => cases hp
  | last hwritten =>
    obtain rfl := List.mem_singleton.1 hp
    exact ofParameter hwritten
  | @more c us vs _ _ hwritten _ _ ih =>
    obtain rfl | hp := List.mem_cons.1 hp
    · obtain ⟨ds, hds, hread⟩ := ofParameter hwritten
      exact ⟨ds, hds.trans (List.prefix_append us (c :: vs)).isInfix, hread⟩
    · obtain ⟨ds, hds, hread⟩ := ih hp
      have hsuffix : vs <:+ us ++ c :: vs := ⟨us ++ [c], by simp⟩
      exact ⟨ds, hds.trans hsuffix.isInfix, hread⟩

lemma Written.default {us : List Token} {sig : Signature} (h : Written us sig) {p : Parameter}
    (hp : p ∈ sig.params) {d : Default} (hd : p.default = some d) :
    ∃ ds, ds <:+: us ∧ Expr.ofTokens ds = .ok d.expr ∧ d.text = sources ds := by
  cases h with
  | empty => cases hp
  | @call o c us ps _ _ hparams =>
    obtain ⟨ds, hds, hread⟩ := hparams.default hp hd
    exact ⟨ds, hds.trans ⟨[o], [c], by simp⟩, hread⟩

/-- The text of a default reads back. -/
lemma readBack_of_ofTokens {place : Place} {cs : List Char} {offset line : Nat} {ts : List Token}
    {sig : Signature} (hts : tokenize cs offset line = .ok ts)
    (h : ofTokens place ts = .ok sig) {p : Parameter} (hp : p ∈ sig.params) {d : Default}
    (hd : p.default = some d) : Expr.ReadBack d.text d.expr := by
  obtain ⟨ps, hlexes, hseen⟩ := lexes_of_tokenize hts
  obtain ⟨ds, ⟨before, after, hds⟩, he, htext⟩ := (written_of_ofTokens h).default hp hd
  -- The tokens of the default are those of some of the chunks.
  have hsolid := significant_seen hseen
  rw [← hds, List.map_append, List.map_append] at hsolid
  obtain ⟨qs, qs', hqs, hmore, _⟩ := List.map_eq_append_iff.1 hsolid.symm
  obtain ⟨qs₀, rs, hrs, _, hseen'⟩ := List.map_eq_append_iff.1 hmore
  have hinside : rs <:+: solid ps := ⟨qs₀, qs', by rw [← hrs, ← hqs]⟩
  have htight : ds.map seen = (rs.map Chunk.tight).map Chunk.seen := by rw [seen_tight, hseen']
  have hflat : d.text = String.ofList (flat (rs.map Chunk.tight)) := by
    rw [← toList_sources hseen'.symm, String.ofList_toList, htext]
  rw [hflat]
  exact Expr.readBack_of_apart (hlexes.apart.solid.part hinside).tight he
    (significant_seen htight)

end Signature

lemma TagKind.readBack_of_definition {place : Place} {cs : List Char} {offset line : Nat}
    {ts : List Token} {args : TagArgs} (hts : tokenize cs offset line = .ok ts)
    (h : TagKind.definition.read place ts = .ok args) :
    ∃ sig, args = .definition sig ∧
      ∀ p ∈ sig.params, ∀ d, p.default = some d → Expr.ReadBack d.text d.expr := by
  obtain ⟨sig, hsig, h⟩ := ok_of_bind h
  cases h
  exact ⟨sig, rfl, fun p hp d hd => Signature.readBack_of_ofTokens hts hsig hp hd⟩

/-! ### Templates -/

namespace Node

variable {tags : TagTable} {segs : List Segment} {ns : List Node}

/-- The head of any tag has been read from tokens by the reader of its name. -/
lemma Reads.of_tag {head : TagHead} {content : List Node} (h : Reads tags segs ns)
    (hn : Within (.tag head content) ns) :
    ∃ reader place cs offset line ts, tags.get? head.name = some reader ∧
      tokenize cs offset line = .ok ts ∧ reader.read place ts = .ok head.args := by
  obtain ⟨_, mid, _, _, hmid⟩ := h.makes hn
  cases hmid with
  | tag hhead | block hhead =>
    obtain ⟨_, _, _, ts, _, _, hts, hargs⟩ := hhead.args
    exact ⟨_, _, _, _, _, ts, hhead.known, hts, hargs⟩

/-- Any output has been read from a segment. -/
lemma Reads.of_output {o : Output} (h : Reads tags segs ns) (hn : Within (.output o) ns) :
    ∃ s : Segment, s.Outputs o := by
  obtain ⟨_, mid, _, _, hmid⟩ := h.makes hn
  cases hmid with
  | output ho => exact ⟨_, ho⟩

end Node

/-- **Recorded expression texts are faithful.** In any template that can be read, the text of an
output, of a call tag or of the default of a parameter reads back as the expression that stands
beside it. -/
theorem recorded_texts_faithful (tags : TagTable) {source : String} {ns : List Node}
    (h : Node.read tags source = .ok ns) :
    (∀ o, Node.Within (.output o) ns → Expr.ReadBack o.source o.expr) ∧
    (∀ head content, Node.Within (.tag head content) ns →
      tags.get? head.name = some TagKind.callBlock.reader →
      ∃ e text, head.args = .callBlock e text ∧ Expr.ReadBack text e) ∧
    ∀ head content, Node.Within (.tag head content) ns →
      tags.get? head.name = some TagKind.definition.reader →
      ∃ sig, head.args = .definition sig ∧
        ∀ p ∈ sig.params, ∀ d, p.default = some d → Expr.ReadBack d.text d.expr := by
  obtain ⟨segs, _, hreads⟩ := Node.read_eq_ok_iff.1 h
  refine ⟨fun o ho => ?_, fun head content hn hcall => ?_, fun head content hn hdefinition => ?_⟩
  · obtain ⟨s, hs⟩ := hreads.of_output ho
    exact hs.readBack
  · obtain ⟨reader, place, cs, offset, line, ts, hreader, hts, hargs⟩ := hreads.of_tag hn
    cases hreader.symm.trans hcall
    exact TagKind.readBack_of_callBlock hts hargs
  · obtain ⟨reader, place, cs, offset, line, ts, hreader, hts, hargs⟩ := hreads.of_tag hn
    cases hreader.symm.trans hdefinition
    exact TagKind.readBack_of_definition hts hargs

namespace Spaced

/-- A template with blanks inside of its expressions:
`{% macro hi(n=b ( x , [ y ] )) %}{% call n [ k ] %}{{ hi ( ) }}{% endcall %}{% endmacro %}`. -/
def template : String :=
  "\x7b% macro hi(n=b ( x , [ y ] )) %\x7d\x7b% call n [ k ] %\x7d\x7b\x7b hi ( ) \x7d\x7d" ++
    "\x7b% endcall %\x7d\x7b% endmacro %\x7d"

/-- The expressions of the default, of the call tag and of the output. -/
def fallback : Expr := .call (.var "b") [.var "x", .list [.var "y"]] []

def callee : Expr := .index (.var "n") (.var "k")

def shown : Expr := .call (.var "hi") [] []

/-- The nodes of the template. -/
def nodes : List Node :=
  [.tag ⟨"macro", .definition ⟨"hi", [⟨"n", some ⟨"b(x,[y])", fallback⟩⟩]⟩, 1, ⟨0, 90⟩⟩
    [.tag ⟨"call", .callBlock callee "n [ k ]", 1, ⟨33, 76⟩⟩
      [.output ⟨shown, "hi ( )", 1, ⟨51, 63⟩⟩]]]

lemma template_read : Node.read TagTable.standard template = .ok nodes := by
  refine Node.ofSource_of [⟨.tag, " macro hi(n=b ( x , [ y ] )) ".toList, 0, 1⟩,
    ⟨.tag, " call n [ k ] ".toList, 33, 1⟩, ⟨.output, " hi ( ) ".toList, 51, 1⟩,
    ⟨.tag, " endcall ".toList, 63, 1⟩, ⟨.tag, " endmacro ".toList, 76, 1⟩] (by decide +kernel) ?_
  rw [Builder.foldlM_add (Builder.add_tag ⟨rfl, by cbv, by cbv, by cbv, by cbv⟩ .definition
      [⟨.blank, " ", ⟨8, 9⟩, 1⟩, ⟨.call, "hi", ⟨9, 12⟩, 1⟩, ⟨.path, "n", ⟨12, 13⟩, 1⟩,
        ⟨.assignment, "=", ⟨13, 14⟩, 1⟩, ⟨.call, "b", ⟨14, 17⟩, 1⟩, ⟨.blank, " ", ⟨17, 18⟩, 1⟩,
        ⟨.path, "x", ⟨18, 19⟩, 1⟩, ⟨.blank, " ", ⟨19, 20⟩, 1⟩, ⟨.comma, ",", ⟨20, 21⟩, 1⟩,
        ⟨.blank, " ", ⟨21, 22⟩, 1⟩, ⟨.bracketOpen, "[", ⟨22, 23⟩, 1⟩, ⟨.blank, " ", ⟨23, 24⟩, 1⟩,
        ⟨.path, "y", ⟨24, 25⟩, 1⟩, ⟨.blank, " ", ⟨25, 26⟩, 1⟩, ⟨.bracketClose, "]", ⟨26, 27⟩, 1⟩,
        ⟨.blank, " ", ⟨27, 28⟩, 1⟩, ⟨.parenClose, ")", ⟨28, 29⟩, 1⟩,
        ⟨.parenClose, ")", ⟨29, 30⟩, 1⟩, ⟨.blank, " ", ⟨30, 31⟩, 1⟩]
      (.definition ⟨"hi", [⟨"n", some ⟨"b(x,[y])", fallback⟩⟩]⟩)
      (by cbv) (by cbv) (by decide +kernel) (by cbv)),
    Builder.foldlM_add (Builder.add_tag ⟨rfl, by cbv, by cbv, by cbv, by cbv⟩ .callBlock
      [⟨.blank, " ", ⟨40, 41⟩, 1⟩, ⟨.path, "n", ⟨41, 42⟩, 1⟩, ⟨.blank, " ", ⟨42, 43⟩, 1⟩,
        ⟨.bracketOpen, "[", ⟨43, 44⟩, 1⟩, ⟨.blank, " ", ⟨44, 45⟩, 1⟩, ⟨.path, "k", ⟨45, 46⟩, 1⟩,
        ⟨.blank, " ", ⟨46, 47⟩, 1⟩, ⟨.bracketClose, "]", ⟨47, 48⟩, 1⟩, ⟨.blank, " ", ⟨48, 49⟩, 1⟩]
      (.callBlock callee "n [ k ]") (by cbv) (by cbv) (by decide +kernel) (by cbv)),
    Builder.foldlM_add (Builder.add_output
      [⟨.blank, " ", ⟨53, 54⟩, 1⟩, ⟨.emptyCall, "hi", ⟨54, 60⟩, 1⟩, ⟨.blank, " ", ⟨60, 61⟩, 1⟩]
      shown rfl (by cbv) (by decide +kernel) (by cbv)),
    Builder.foldlM_add (Builder.add_end ⟨rfl, by cbv, by cbv, by cbv, by cbv⟩ (by cbv) (by cbv)
      rfl rfl),
    Builder.foldlM_add (Builder.add_end ⟨rfl, by cbv, by cbv, by cbv, by cbv⟩ (by cbv) (by cbv)
      rfl rfl)]
  rfl

/-- The text of the default has no blanks left in it; those of the call tag and of the output have
them where the template has them. -/
theorem texts_faithful : Node.read TagTable.standard template = .ok nodes ∧
    Expr.ReadBack "b(x,[y])" fallback ∧ Expr.ReadBack "n [ k ]" callee ∧
    Expr.ReadBack "hi ( )" shown := by
  obtain ⟨houtput, hcall, hdefinition⟩ := recorded_texts_faithful _ template_read
  have hdefined : Node.Within _ nodes := .here List.mem_cons_self
  have hcalled : Node.Within _ nodes := .inside List.mem_cons_self (.here List.mem_cons_self)
  have hshown : Node.Within _ nodes :=
    .inside List.mem_cons_self (.inside List.mem_cons_self (.here List.mem_cons_self))
  obtain ⟨_, hsig, hdefaults⟩ := hdefinition _ _ hdefined (TagSet.get?_table .standard "macro")
  obtain ⟨_, _, hargs, hread⟩ := hcall _ _ hcalled (TagSet.get?_table .standard "call")
  cases hsig
  cases hargs
  exact ⟨template_read, hdefaults _ List.mem_cons_self _ rfl, hread, houtput _ hshown⟩

end Spaced

end Stencil
