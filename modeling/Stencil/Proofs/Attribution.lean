import Stencil.Proofs.Diagnostics
import Stencil.Proofs.Escaping
import Stencil.Proofs.ImportGraph
import Stencil.Proofs.Phases
import Stencil.Session

/-!
Which file an error points into. Compiling the nodes of a file stops at an import or at a from tag
(`FileScope.Stops`). Followed through the imports, an error of reading or compiling is therefore
**blamed** on a file (`Compiler.Blames`): it is the error of reading that file, or stands at a from
tag in it. The file is **met** at the end of a chain of imports from the entry (`Compiler.Meets`,
`Compiler.failsWith_compile`).

The error names that file, and its labels fit into its text: an error of reading is located in it
(`SyntaxError.Located`), and a tag covers the segments that it has been read from. The main result
is `diagnostics_fit`.
-/

namespace Stencil

open Text (Span bytes newlines)

/-! ### Tags in a template -/

namespace Node

variable {segs : List Segment} {ns content : List Node} {head : TagHead}

/-- A tag is read from where it is opened on. -/
lemma Makes.opens {tags : TagTable} (h : Makes tags segs (.tag head content)) :
    ∃ s rest, segs = s :: rest ∧ s.kind = .tag ∧ head.line = s.line := by
  cases h with
  | tag hhead => exact ⟨_, _, rfl, hhead.kind, hhead.line⟩
  | block hhead => exact ⟨_, _, rfl, hhead.kind, hhead.line⟩

/-- A tag marks the segments that make it up. -/
lemma marks_of_within {tags : TagSet} {source : String} (h : ofSource tags source = .ok ns)
    (hn : Within (.tag head content) ns) : Text.Marks source.toList head.line head.span := by
  obtain ⟨segs, hcuts, hreads⟩ := read_eq_ok_iff.1 h
  obtain ⟨before, mid, after, rfl, hmid⟩ := hreads.makes hn
  obtain ⟨rest, hbefore, hrest⟩ := hcuts.split
  have hspan := hmid.span_eq (Segment.placed_append_iff.1 hrest.placed).1 rfl
  obtain ⟨s, inner, rfl, hkind, hline⟩ := hmid.opens
  have hsource : Segment.source s.kind s.body ≠ [] := Segment.source_ne_nil (by simp [hkind]) _
  refine ⟨Segment.sources before, Segment.sources (s :: inner), Segment.sources after, ?_, ?_, ?_,
    ?_⟩
  · rw [← Segment.sources_append, ← hbefore.sources_append, ← hrest.sources_append, List.append_nil]
  · simp [hsource]
  · cases hrest
    exact hline
  · rw [hspan, Nat.zero_add]

end Node

/-- What is behind a token is in the text still. -/
lemma SyntaxError.Located.fits {cs : List Char} {e : SyntaxError} (h : e.Located cs) :
    e.span.Fits cs ∧ ∀ r ∈ e.related, r.2.Fits cs := by
  refine ⟨?_, fun r hr => (h.related r hr).elim fun _ hmarks => hmarks.fits⟩
  by_cases hcause : e.cause = .endOfExpression
  · obtain ⟨t, ht, _, hspan⟩ := h.behind hcause
    obtain ⟨before, trail, after, hcs, _, _, ht'⟩ := ht.stands.place
    have hstop := ht.stop
    rw [Nat.zero_add] at ht'
    rw [hspan]
    refine ⟨⟨before ++ (t.text.toList ++ trail), after, by simpa using hcs, ?_⟩, ?_⟩
    · rw [ht', Text.bytes_append before]
    · simp only [Span.labelLength, Span.length, Nat.sub_self]
      omega
  · exact (h.here hcause).fits

/-! ### Blame -/

namespace Compiler

variable {c : Compiler} {entry file : SourceFile} {e : Error}

/-- **The file is to blame for the error**: it cannot be read, or a tag in it asks for the macro
that is missing. -/
inductive Blames (c : Compiler) (file : SourceFile) : Error → Prop
  | malformed {e : SyntaxError} : Node.ofSource c.tags file.text = .error e →
      Blames c file (.malformed file e)
  | undefined {ns content : List Node} {head : TagHead} {header : ImportNames} {missing : String}
      (source : String) (defined : List String) : c.nodes file = .ok ns →
      Node.Within (.tag head content) ns → head.args = .importNames header →
      missing ∈ header.names →
      Blames c file (.undefinedMacro file head.span head.line missing source defined)

lemma Blames.file_eq (h : c.Blames file e) : e.file = some file := by
  cases h <;> rfl

lemma Blames.labels_ne_nil (h : c.Blames file e) : e.labels ≠ [] := by
  cases h <;> exact List.cons_ne_nil _ _

/-- All labels fit into the text of the file. -/
lemma Blames.fits (h : c.Blames file e) : ∀ label ∈ e.labels, label.2.Fits file.text.toList := by
  cases h with
  | malformed he =>
    exact List.forall_mem_cons.2 (Node.failsWith_ofSource c.tags file.text _ he).fits
  | undefined source defined hns hn =>
    refine List.forall_mem_cons.2 ⟨?_, nofun⟩
    exact (Node.marks_of_within (ofSource_of_nodes hns) hn).fits

/-- Reading a file fails by what is in it. -/
lemma failsWith_nodes (c : Compiler) (file : SourceFile) :
    FailsWith (c.Blames file) (c.nodes file) := by
  intro e he
  rw [nodes] at he
  cases hread : Node.ofSource c.tags file.text with
  | error e' =>
    rw [hread] at he
    cases he
    exact .malformed hread
  | ok ns =>
    rw [hread] at he
    cases he

/-- The file is met when the entry is compiled: it is the last one of a chain of imports. -/
structure Meets (c : Compiler) (entry file : SourceFile) : Prop where
  chain : ∃ names, c.Chain entry names ∧ names.getLast? = some file.name
  text : c.text? entry file.name = some file.text

/-- **The error can be traced**: a file is not found or may not be imported, or one that is met is
to blame. -/
inductive Traced (c : Compiler) (entry : SourceFile) (e : Error) : Prop
  | resolving : e.kind = .resolving → Traced c entry e
  | blamed {file : SourceFile} : c.Meets entry file → c.Blames file e → Traced c entry e

/-- The nodes of a file stop with errors that can be traced, if its imports fail with such. -/
lemma Meets.traced_of_stops {ns : List Node} {f : String → Except Error (String × List Fragment)}
    (h : c.Meets entry file) (hns : c.nodes file = .ok ns)
    (hf : ∀ path ∈ allPaths ns, FailsWith (c.Traced entry) (f path))
    (he : FileScope.Stops ⟨c.tags, file, f⟩ ns e) : c.Traced entry e := by
  cases he with
  | imported hpath he => exact hf _ hpath _ he
  | undefined source defined hn hargs hmissing =>
    exact .blamed h (.undefined source defined hns hn hargs hmissing)

/-- What an import fails with can be traced, along the chain that leads to it. -/
lemma failsWith_fragments {room : Nat} {chain : List String} {importer path : String}
    (hentry : entry.name ∈ chain) (hchain : c.Chain entry chain)
    (hlast : chain.getLast? = some importer)
    (himports : c.Imports entry importer (Path.join (some importer) path)) :
    FailsWith (c.Traced entry) (c.fragments room chain path) := by
  rw [fragments.eq_def]
  refine FailsWith.bind (fun e he => .resolving (kind_of_load_error he)) fun file hload => ?_
  obtain ⟨hname, htext⟩ := name_of_load hload
  rw [hlast] at hname
  by_cases hmem : file.name ∈ chain
  · simp only [List.contains_iff_mem.2 hmem, if_true]
    exact .error (.resolving rfl)
  · simp only [List.contains_iff_mem, if_neg hmem]
    cases room with
    | zero => exact .error (.resolving rfl)
    | succ room =>
      have hlonger : c.Chain entry (chain ++ [file.name]) := hchain.concat hlast (hname ▸ himports)
      have hmeets : c.Meets entry file := by
        refine ⟨⟨_, hlonger, List.getLast?_concat ..⟩, ?_⟩
        rw [text?, if_neg fun heq : file.name = entry.name => hmem (heq ▸ hentry)]
        exact htext
      refine FailsWith.bind (.mono (c.failsWith_nodes file) fun e => .blamed hmeets)
        fun ns hns => ?_
      refine FailsWith.bind (.mono (FileScope.stops_of_fragments (legible_of_nodes hns))
        fun e he => ?_) fun _ _ => .ok _
      refine hmeets.traced_of_stops hns (fun path' hpath => ?_) he
      exact failsWith_fragments (List.mem_append_left _ hentry) hlonger (List.getLast?_concat ..)
        ⟨file.text, ns, hmeets.text, hns, path', hpath, rfl⟩
termination_by room

/-- **What compiling a template fails with can be traced.** -/
lemma failsWith_compile (c : Compiler) (entry : SourceFile) :
    FailsWith (c.Traced entry) (c.compile entry) := by
  have hmeets : c.Meets entry entry := ⟨⟨[entry.name], ⟨rfl, .singleton _⟩, rfl⟩, if_pos rfl⟩
  rw [compile]
  refine FailsWith.bind (.mono (c.failsWith_nodes entry) fun e => .blamed hmeets) fun ns hns => ?_
  rw [program]
  refine FailsWith.bind
    (.mono (FileScope.stops_of_nodes (legible_of_nodes hns) []) fun e he => ?_) fun _ _ => .ok _
  refine hmeets.traced_of_stops hns (fun path hpath => ?_) he
  exact failsWith_fragments (List.mem_singleton_self _) ⟨rfl, .singleton _⟩ rfl
    ⟨entry.text, ns, hmeets.text, hns, path, hpath, rfl⟩

/-- The file to be compiled: the text that is given, or else the file of the name. -/
def Starts (c : Compiler) (name : String) (text : Option String) (entry : SourceFile) : Prop :=
  match text with
  | some text => entry = ⟨name, text⟩
  | none => c.load none name = .ok entry

/-- A syntax or compile error comes from a file that is met. -/
lemma blamed_of_compileEntry {name : String} {text : Option String}
    (he : c.compileEntry name text = .error e)
    (hkind : e.kind = .malformed ∨ e.kind = .compiling) :
    ∃ entry file, c.Starts name text entry ∧ c.Meets entry file ∧ c.Blames file e := by
  suffices h : ∃ entry, c.Starts name text entry ∧ c.compile entry = .error e by
    obtain ⟨entry, hstarts, he⟩ := h
    cases c.failsWith_compile entry e he with
    | resolving h => simp [h] at hkind
    | blamed hmeets hblames => exact ⟨entry, _, hstarts, hmeets, hblames⟩
  cases text with
  | some text => exact ⟨_, rfl, he⟩
  | none =>
    obtain hload | ⟨entry, hload, he⟩ := error_of_bind (x := c.load none name) he
    · simp [kind_of_load_error hload] at hkind
    · exact ⟨entry, hload, he⟩

end Compiler

/-! ### Diagnostics -/

/-- **Diagnostics point into the right file.** A syntax or compile error names a file that is read
or compiled on the way: the last one of a chain of imports from the template that is compiled, with
the text it has there, and one that is to blame for the error. Each label of the error fits into
this text; there is a label. So it is for a file that is only read. -/
theorem diagnostics_fit (c : Compiler) :
    (∀ file e, c.nodes file = .error e → e.file = some file ∧ e.labels ≠ [] ∧
      ∀ label ∈ e.labels, label.2.Fits file.text.toList) ∧
    ∀ name text e, c.compileEntry name text = .error e →
      (e.kind = .malformed ∨ e.kind = .compiling) →
      ∃ entry file, c.Starts name text entry ∧ c.Meets entry file ∧ c.Blames file e ∧
        e.file = some file ∧ e.labels ≠ [] ∧
        ∀ label ∈ e.labels, label.2.Fits file.text.toList := by
  refine ⟨fun file e he => ?_, fun name text e he hkind => ?_⟩
  · have hblames := c.failsWith_nodes file e he
    exact ⟨hblames.file_eq, hblames.labels_ne_nil, hblames.fits⟩
  · obtain ⟨entry, file, hstarts, hmeets, hblames⟩ := Compiler.blamed_of_compileEntry he hkind
    exact ⟨entry, file, hstarts, hmeets, hblames, hblames.file_eq, hblames.labels_ne_nil,
      hblames.fits⟩

namespace Unclosed

/-- A file that breaks off in an output on its second line. -/
def lib : SourceFile := ⟨"lib", "a\n\x7b\x7b x"⟩

/-- A page that imports it. -/
def page : SourceFile := ⟨"page", Literal.importOf "lib"⟩

def compiler : Compiler where
  tags := .standard
  library := ⟨fun name => if name = lib.name then some lib.text else none, fun _ => none⟩
  maxDepth := 8

/-- The delimiter is not closed. -/
def failure : Error := .malformed lib ⟨.unclosedDelimiter, 2, ⟨2, 2⟩, []⟩

lemma lib_fails : compiler.nodes lib = .error failure := by
  have hsegments : Segment.segments lib.text.toList 0 1 =
      .error ⟨.unclosedDelimiter, 2, ⟨2, 2⟩, []⟩ := by decide +kernel
  rw [Compiler.nodes, Node.ofSource, Node.read, hsegments]
  rfl

lemma lib_imported : compiler.fragments 7 ["page"] "lib" = .error failure := by
  have hload : compiler.load (some "page") "lib" = .ok lib := by
    have hname : Path.join (some "page") "lib" = lib.name := by cbv
    rw [Compiler.load, hname]
    rfl
  rw [Compiler.fragments, List.getLast?_singleton, bind_eq_of_ok hload]
  show (compiler.nodes lib >>= _) = _
  rw [lib_fails]
  rfl

lemma page_fails : compiler.compileEntry page.name (some page.text) = .error failure := by
  have hread : Node.read compiler.tags.table page.text = .ok [.tag (Literal.head "lib") []] :=
    Literal.read_importOf (TagSet.get?_table .standard "from") "lib"
  have hnodes : compiler.nodes page = .ok [.tag (Literal.head "lib") []] := by
    rw [Compiler.nodes, Node.ofSource, hread]
    rfl
  have hnode : (compiler.scope page).node [] (.tag (Literal.head "lib") []) = .error failure := by
    show (compiler.fragments 7 ["page"] "lib" >>= _) = _
    rw [lib_imported]
    rfl
  show (compiler.nodes page >>= compiler.program page) = _
  rw [bind_eq_of_ok hnodes, Compiler.program]
  show ((compiler.scope page).nodes [] _ >>= _) = _
  rw [FileScope.nodes, hnode]
  rfl

/-- The page fails by the delimiter in the imported file, and the report points there. -/
theorem page_diagnosed : ∃ file, compiler.Meets page file ∧ failure.file = some file ∧
    ∀ label ∈ failure.labels, label.2.Fits file.text.toList := by
  obtain ⟨_, file, rfl, hmeets, _, hfile, _, hfits⟩ :=
    (diagnostics_fit compiler).2 page.name (some page.text) failure page_fails (.inl rfl)
  exact ⟨file, hmeets, hfile, hfits⟩

end Unclosed

end Stencil
