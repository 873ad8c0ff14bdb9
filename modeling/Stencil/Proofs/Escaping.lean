import Stencil.Proofs.Grammar.Template
import Stencil.Proofs.Placeless
import Stencil.Session

/-!
Writing a text as a string literal. A backslash goes before each backslash, double quote and closing
brace (`Text.escape`), and the text goes between double quotes (`Text.quoted`).

* `unescape` gives the text back (`Text.unescape_quoted`).
* The literal ends at its last quote, so that it is a single token whatever follows
  (`Token.scan?_quoted`).
* No closing delimiter comes about in it, since each closing brace has a backslash before it
  (`Segment.notInfix_escape`); an output or a tag is not cut short by the literal in it.

The main result is `strings_writable`: an output of the literal is read as such, and puts out the
text whatever the data are; and a from tag with the literal imports from the file of that name.
-/

namespace Stencil

open Text (bytes newlines)

/-! ### The literal -/

namespace Text

/-- The character with a backslash before it if it needs one. -/
def escapeChar (c : Char) : List Char :=
  if c = '\\' ∨ c = '"' ∨ c = '\x7d' then ['\\', c] else [c]

/-- The text with a backslash before each character that needs one. -/
def escape (cs : List Char) : List Char :=
  cs.flatMap escapeChar

/-- The string literal for a text. -/
def quoted (s : String) : List Char :=
  '"' :: (escape s.toList ++ ['"'])

lemma escape_cons (c : Char) (cs : List Char) : escape (c :: cs) =
    if c = '\\' ∨ c = '"' ∨ c = '\x7d' then '\\' :: c :: escape cs else c :: escape cs := by
  rw [escape, List.flatMap_cons, escapeChar]
  split <;> rfl

lemma resolveEscapes_escape (cs : List Char) : resolveEscapes (escape cs) = cs := by
  induction cs with
  | nil => rfl
  | cons c cs ih =>
    rw [escape_cons]
    split
    next hc =>
      have hletter : c ≠ 'n' ∧ c ≠ 't' ∧ c ≠ 'r' := by
        obtain rfl | rfl | rfl := hc <;> decide
      rw [resolveEscapes, ih, if_neg hletter.1, if_neg hletter.2.1, if_neg hletter.2.2]
    next hc =>
      have hne : c ≠ '\\' := fun h => hc (.inl h)
      rw [resolveEscapes, ih] <;> simp [hne]

/-- The literal stands for its text. -/
lemma unescape_quoted (s : String) : unescape (quoted s) = s.toList := by
  have hinner : inner (quoted s) = escape s.toList := by
    have hquote : '"'.utf8Size = 1 := by decide
    simp [quoted, inner, hquote]
  rw [unescape, hinner, resolveEscapes_escape]

end Text

open Text (escape escape_cons quoted)

/-! ### The literal is a token -/

namespace Token

lemma stringTail?_escape (cs rest : List Char) :
    stringTail? '"' (escape cs ++ '"' :: rest) = some (escape cs ++ ['"'], rest) := by
  induction cs with
  | nil => simp [escape, stringTail?]
  | cons c cs ih =>
    rw [escape_cons]
    split
    next hc =>
      have hline : c ≠ '\n' := by
        obtain rfl | rfl | rfl := hc <;> decide
      rw [List.cons_append, List.cons_append, stringTail?, if_neg hline, ih]
      rfl
    next hc =>
      rw [not_or, not_or] at hc
      rw [List.cons_append, stringTail?, if_neg hc.2.1, if_neg hc.1, ih]
      · rfl
      · simp [hc.1]

/-- The literal is one token, whatever stands behind it. -/
lemma scan?_quoted (s : String) (rest : List Char) :
    scan? (quoted s ++ rest) = some (.string, ⟨quoted s, [], rest⟩) := by
  have hstring : scan? ('"' :: ((escape s.toList ++ ['"']) ++ rest)) = _ :=
    scan?_string (.inl rfl) (stringTail?_escape s.toList [])
  simpa [quoted] using hstring

lemma scan?_blank_quoted (s : String) (rest : List Char) :
    scan? (' ' :: (quoted s ++ rest)) = some (.blank, ⟨[' '], [], quoted s ++ rest⟩) := by
  have hblank : Text.isBlank ' ' = true ∧ Text.isBlank '"' = false := by decide
  simp [scan?, rules, firstMatch?, run, quoted, hblank]

lemma lexes_quoted (s : String) {rest : List Char} {ps : List Chunk} (h : Lexes rest ps) :
    Lexes (' ' :: (quoted s ++ rest)) (⟨.blank, [' '], []⟩ :: ⟨.string, quoted s, []⟩ :: ps) :=
  .cons (scan?_blank_quoted s rest) (.cons (scan?_quoted s rest) h)

end Token

/-! ### The literal closes nothing -/

namespace Segment

lemma head?_escape {rest : List Char} (hrest : rest.head? ≠ some '\x7d') (cs : List Char) :
    (escape cs ++ rest).head? ≠ some '\x7d' := by
  cases cs with
  | nil => exact hrest
  | cons c cs =>
    rw [escape_cons]
    split
    next => simp
    next hc =>
      rw [not_or, not_or] at hc
      simpa using hc.2.2

/-- Behind an escaped text no closing delimiter comes about that does not stand there already. -/
lemma notInfix_escape {a : Char} (ha : a ≠ '\\') {rest : List Char}
    (hrest : rest.head? ≠ some '\x7d') (hclose : ¬ [a, '\x7d'] <:+: rest) (cs : List Char) :
    ¬ [a, '\x7d'] <:+: escape cs ++ rest := by
  induction cs with
  | nil => exact hclose
  | cons c cs ih =>
    have hskip (d : Char) : ¬ [a, '\x7d'] <:+: d :: (escape cs ++ rest) := by
      rw [pair_infix_cons]
      exact not_or.2 ⟨fun h => head?_escape hrest cs h.2, ih⟩
    rw [escape_cons]
    split
    next =>
      rw [List.cons_append, pair_infix_cons]
      exact not_or.2 ⟨fun h => ha h.1, hskip c⟩
    next => exact hskip c

lemma notInfix_quoted (s : String) {a : Char} {rest : List Char} (ha : a ≠ '\\')
    (hclose : ¬ [a, '\x7d'] <:+: '"' :: rest) : ¬ [a, '\x7d'] <:+: quoted s ++ rest := by
  have hquote : ('"' :: rest).head? ≠ some '\x7d' := by simp
  have hsplit : quoted s ++ rest = '"' :: (escape s.toList ++ '"' :: rest) := by simp [quoted]
  rw [hsplit, pair_infix_cons]
  exact not_or.2 ⟨fun h => head?_escape hquote _ h.2, notInfix_escape ha hquote hclose _⟩

lemma notInfix_append {a b : Char} {front cs : List Char} (ha : a ∉ front)
    (hcs : ¬ [a, b] <:+: cs) : ¬ [a, b] <:+: front ++ cs := by
  induction front with
  | nil => exact hcs
  | cons c front ih =>
    rw [List.mem_cons, not_or] at ha
    rw [List.cons_append, pair_infix_cons]
    exact not_or.2 ⟨fun h => ha.1 h.1, ih ha.2⟩

/-- A template may be a single piece. -/
lemma cuts_source {kind : SegmentKind} {body : List Char} (hkind : kind ≠ .text)
    (hclose : ¬ kind.closing <:+: body ++ kind.closing.dropLast) :
    Cuts [] 0 1 (source kind body) [⟨kind, body, 0, 1⟩] := by
  have hcut := Cut.delimited [] hkind hclose
  rw [List.append_nil] at hcut
  exact .piece hcut (.stop _ _)

end Segment

/-! ### An output of the literal -/

namespace Literal

/-- The template `{{ "…" }}`. -/
def outputOf (s : String) : String :=
  "\x7b\x7b " ++ String.ofList (quoted s) ++ " \x7d\x7d"

/-- The template `{% from "…" import a %}`. -/
def importOf (s : String) : String :=
  "\x7b% from " ++ String.ofList (quoted s) ++ " import a %\x7d"

/-- The output that the literal is read as. -/
def output (s : String) : Output where
  expr := .literal (.string s)
  source := String.ofList (quoted s)
  line := 1
  span := ⟨0, bytes (outputOf s).toList⟩

/-- The from tag that is read. -/
def head (s : String) : TagHead where
  name := "from"
  args := .importNames ⟨s, ["a"], false⟩
  line := 1
  span := ⟨0, bytes (importOf s).toList⟩

/-- The body of the output. -/
def outputBody (s : String) : List Char :=
  ' ' :: (quoted s ++ [' '])

/-- What stands behind the word of the from tag. -/
def header (s : String) : List Char :=
  ' ' :: (quoted s ++ " import a ".toList)

lemma toList_outputOf (s : String) :
    (outputOf s).toList = Segment.source .output (outputBody s) := by
  simp [outputOf, outputBody, Segment.source]

lemma toList_importOf (s : String) :
    (importOf s).toList = Segment.source .tag (" from".toList ++ header s) := by
  simp [importOf, header, Segment.source]

lemma trim_outputBody (s : String) : Text.trim (outputBody s) = quoted s := by
  have hblank : Text.isBlank ' ' = true ∧ Text.isBlank '"' = false := by decide
  simp [Text.trim, Text.trimStart, outputBody, quoted, hblank]

/-- The literal as a token, wherever it stands. -/
def token (s : String) : Token :=
  ⟨.string, String.ofList (quoted s), ⟨0, 0⟩, 0⟩

lemma derives_token (s : String) : Expr.Derives [token s] (.expr (.literal (.string s))) := by
  have hderives := Expr.Derives.expr (.string (t := token s) rfl) (.noIndex _)
  simpa [token, Text.unescape_quoted] using hderives

/-- The output is read as the literal. -/
lemma outputs (s : String) : Segment.Outputs ⟨.output, outputBody s, 0, 1⟩ (output s) where
  kind := rfl
  body := by
    rw [trim_outputBody]
    rfl
  expr := by
    have hblank : Token.Lexes [' '] [⟨.blank, [' '], []⟩] := .cons rfl .nil
    obtain ⟨ts, hts, hseen⟩ := (Token.lexes_quoted s hblank).tokenize_eq 2 1
    have halike : Token.Alike [token s] (Token.significant ts) :=
      (Token.significant_seen hseen).symm
    exact ⟨ts, hts, ((derives_token s).alike halike).ofTokens_eq⟩
  source := by rw [trim_outputBody]; rfl
  line := rfl
  span := by rw [Segment.span_eq, output, toList_outputOf, Nat.zero_add]

lemma read_outputOf (tags : TagTable) (s : String) :
    Node.read tags (outputOf s) = .ok [.output (output s)] := by
  have hclose : ¬ ['\x7d', '\x7d'] <:+: outputBody s ++ ['\x7d'] := by
    have hquoted : ¬ ['\x7d', '\x7d'] <:+: quoted s ++ [' ', '\x7d'] :=
      Segment.notInfix_quoted s (by decide) (by simp [Segment.pair_infix_cons])
    have hblank : '\x7d' ∉ [' '] := by decide
    simpa [outputBody] using Segment.notInfix_append hblank hquoted
  rw [Node.read_eq_ok_iff, toList_outputOf]
  exact ⟨_, Segment.cuts_source (by decide) hclose, .output (outputs s) .nil⟩

/-! ### The from tag with the literal -/

/-- The tokens of the header, wherever they stand. -/
def headerTokens (s : String) : List Token :=
  [⟨.blank, " ", ⟨0, 0⟩, 0⟩, token s, ⟨.blank, " ", ⟨0, 0⟩, 0⟩, ⟨.path, "import", ⟨0, 0⟩, 0⟩,
    ⟨.blank, " ", ⟨0, 0⟩, 0⟩, ⟨.path, "a", ⟨0, 0⟩, 0⟩, ⟨.blank, " ", ⟨0, 0⟩, 0⟩]

lemma tokenize_header (s : String) (offset line : Nat) :
    ∃ ts, Token.tokenize (header s) offset line = .ok ts ∧ Token.Alike (headerTokens s) ts := by
  have himport : Token.Lexes " import a ".toList [⟨.blank, [' '], []⟩,
      ⟨.path, "import".toList, []⟩, ⟨.blank, [' '], []⟩, ⟨.path, ['a'], []⟩,
      ⟨.blank, [' '], []⟩] :=
    .cons (by rfl) (.cons (by rfl) (.cons (by rfl) (.cons (by rfl) (.cons (by rfl) .nil))))
  obtain ⟨ts, hts, hseen⟩ := (Token.lexes_quoted s himport).tokenize_eq offset line
  exact ⟨ts, hts, hseen.symm⟩

lemma ofTokens_headerTokens (s : String) (place : Place) :
    ImportNames.ofTokens place (headerTokens s) = .ok ⟨s, ["a"], false⟩ := by
  have hheader : Header.ofTokens "from" place (headerTokens s) =
      .ok ⟨s, [⟨.path, "import", ⟨0, 0⟩, 0⟩, ⟨.path, "a", ⟨0, 0⟩, 0⟩], false⟩ := by
    simp [Header.ofTokens, headerTokens, Header.Found.feed, token, Text.unescape_quoted]
    rfl
  rw [ImportNames.ofTokens, bind_eq_of_ok hheader]
  rfl

/-- The path of the tag is read as the text of the literal. -/
lemma heads {tags : TagTable} (htags : tags.get? "from" = some TagKind.importNames.reader)
    (s : String) : Segment.Heads tags ⟨.tag, " from".toList ++ header s, 0, 1⟩
      TagKind.importNames.reader (head s) where
  args := by
    have hchars : Text.isBlank ' ' = true ∧ Text.isBlank 'f' = false ∧
        Builder.isTagChar 'f' = true ∧ Builder.isTagChar 'r' = true ∧
        Builder.isTagChar 'o' = true ∧ Builder.isTagChar 'm' = true ∧
        Builder.isTagChar ' ' = false := by decide
    have hw : Builder.Worded ⟨.tag, " from".toList ++ header s, 0, 1⟩ [' '] "from".toList
        (header s) := by
      constructor <;> simp [header, hchars]
    obtain ⟨ts, hts, halike⟩ := tokenize_header s (2 + bytes ([' '] ++ "from".toList))
      (1 + newlines ([' '] ++ "from".toList))
    have hargs (place : Place) : TagKind.importNames.reader.read place ts =
        .ok (.importNames ⟨s, ["a"], false⟩) :=
      bind_eq_of_ok (ImportNames.ofTokens_alike (ofTokens_headerTokens s place) halike) _
    exact ⟨[' '], "from".toList, header s, ts, hw, rfl, hts, hargs _⟩
  ended := if_neg (show ¬ "end".toList.isPrefixOf "from".toList = true by decide)
  known := htags
  line := rfl
  span := by rw [Segment.span_eq, head, toList_importOf, Nat.zero_add]

lemma read_importOf {tags : TagTable}
    (htags : tags.get? "from" = some TagKind.importNames.reader) (s : String) :
    Node.read tags (importOf s) = .ok [.tag (head s) []] := by
  have hclose : ¬ ['%', '\x7d'] <:+: " from".toList ++ header s ++ ['%'] := by
    have hquoted : ¬ ['%', '\x7d'] <:+: quoted s ++ " import a %".toList :=
      Segment.notInfix_quoted s (by decide) (by simp [Segment.pair_infix_cons])
    have hword : '%' ∉ " from ".toList := by decide
    simpa [header] using Segment.notInfix_append hword hquoted
  rw [Node.read_eq_ok_iff, toList_importOf]
  exact ⟨_, Segment.cuts_source (by decide) hclose, .tag (heads htags s) rfl .nil⟩

/-! ### Putting the literal out -/

lemma compile_outputOf (c : Compiler) (name s : String) :
    c.compile ⟨name, outputOf s⟩ = .ok ⟨name, [.output (.literal (.string s))]⟩ := by
  have hnodes : c.nodes ⟨name, outputOf s⟩ = .ok [.output (output s)] := by
    rw [Compiler.nodes, Node.ofSource, read_outputOf]
    rfl
  rw [Compiler.compile, bind_eq_of_ok hnodes]
  rfl

lemma render_literal (name s : String) (r : Renderer) :
    Renderer.render ⟨name, [.output (.literal (.string s))]⟩ r = .ok s r := by
  show EStateM.Result.ok (s ++ "") r = _
  rw [String.append_empty]

end Literal

/-- **Every string can be written.** The template `{{ "…" }}`, where the dots are the string with a
backslash before each backslash, double quote and closing brace, is read as one output of the string
as a literal, whatever tags there are; it can be compiled, and puts out the string and changes
nothing whatever the context is. Where from tags are known, `{% from "…" import a %}` is read as one
whose path is the string. -/
theorem strings_writable (s : String) :
    (∀ tags : TagTable, Node.read tags (Literal.outputOf s) =
      .ok [.output ⟨.literal (.string s), String.ofList (quoted s), 1,
        ⟨0, bytes (Literal.outputOf s).toList⟩⟩]) ∧
    (∀ (c : Compiler) (name : String), ∃ p, c.compile ⟨name, Literal.outputOf s⟩ = .ok p ∧
      ∀ r : Renderer, Renderer.render p r = .ok s r) ∧
    (∀ tags : TagTable, tags.get? "from" = some TagKind.importNames.reader →
      Node.read tags (Literal.importOf s) =
        .ok [.tag ⟨"from", .importNames ⟨s, ["a"], false⟩, 1,
          ⟨0, bytes (Literal.importOf s).toList⟩⟩ []]) ∧
    Text.unescape (quoted s) = s.toList :=
  ⟨fun tags => Literal.read_outputOf tags s,
    fun c name => ⟨_, Literal.compile_outputOf c name s, Literal.render_literal name s⟩,
    fun _ htags => Literal.read_importOf htags s, Text.unescape_quoted s⟩

namespace Escaped

/-- Everything that could end the literal or one of the pieces early, a line end, a character of
two bytes and a backslash at the end. -/
def text : String := "\"\x7d\x7d %\x7d\nä\\"

/-- The literal with a backslash before each character that needs one, in a template that the
language reads. -/
theorem text_writable : TagTable.standard.get? "from" = some TagKind.importNames.reader ∧
    Literal.importOf text =
      "\x7b% from \"\\\"\\\x7d\\\x7d %\\\x7d\nä\\\\\" import a %\x7d" ∧
    Node.read TagTable.standard (Literal.importOf text) =
      .ok [.tag ⟨"from", .importNames ⟨text, ["a"], false⟩, 1, ⟨0, 37⟩⟩ []] := by
  have hfrom : TagTable.standard.get? "from" = some TagKind.importNames.reader :=
    TagSet.get?_table .standard "from"
  have hbytes : bytes (Literal.importOf text).toList = 37 := by decide +kernel
  have hread := (strings_writable text).2.2.1 TagTable.standard hfrom
  rw [hbytes] at hread
  exact ⟨hfrom, by decide +kernel, hread⟩

end Escaped

end Stencil
