import Stencil.Proofs.Placeless
import Mathlib.Data.List.Induction

/-!
The grammar of import headers. A header is made of string literals and words, with white space and
commas anywhere (`Header.Forms`). **Words** are the variables other than `as`, `with` and `context`
(`Header.wordsOf`).

* One scan serves both tags. What it has found of the tokens so far is told by the tokens
  themselves (`Header.found`), and it goes on as long as they are the front of a header
  (`Header.Begins`, `Header.foldlM_feed_eq_ok_iff`).
* The last `import` divides the words of a from tag (`ImportNames.splitAtImport_eq_some_iff`), so
  that what stands behind it holds no other; the names are kept each at its first place
  (`ImportNames.collect_eq_ok_iff`).
* Headers that are **rearranged** (`Header.Rearranged`) have the same literals and the same words
  in the same order. Nothing else is looked at.

The main result is `headers_exact`.
-/

namespace Stencil

open Token (Alike)

namespace Header

/-! ### What the tokens say -/

/-- The texts of the tokens of a kind. -/
def texts (kind : TokenKind) (ts : List Token) : List String :=
  (ts.filter (·.kind = kind)).map (·.text)

/-- The variables other than the ones without a meaning. -/
def wordsOf (ts : List Token) : List Token :=
  ts.filter fun t => t.kind = .path ∧ t.text ∉ ["as", "with", "context"]

/-- Whether one of the variables is `with` or `context`. -/
def mentionsContext (ts : List Token) : Bool :=
  decide ("with" ∈ texts .path ts ∨ "context" ∈ texts .path ts)

/-- The path that a string literal stands for. -/
def pathOf (literal : String) : String :=
  String.ofList (Text.unescape literal.toList)

/-- **The tokens are a header** with the literal. -/
structure Forms (ts : List Token) (literal : String) : Prop where
  kinds : ∀ t ∈ ts, t.kind ∈ [.blank, .comma, .path, .string]
  literal : texts .string ts = [literal]

/-- The tokens are the front of a header. -/
structure Begins (ts : List Token) : Prop where
  kinds : ∀ t ∈ ts, t.kind ∈ [.blank, .comma, .path, .string]
  literals : (texts .string ts).length ≤ 1

/-! ### The scan -/

section Scan

variable {tag : String} {place : Place} {us ts : List Token} {t : Token} {f : Found}

/-- What is found in the tokens. -/
def found (ts : List Token) : Found :=
  ⟨(texts .string ts).head?.map pathOf, wordsOf ts, mentionsContext ts⟩

lemma texts_concat (kind : TokenKind) (us : List Token) (t : Token) :
    texts kind (us ++ [t]) = texts kind us ++ if t.kind = kind then [t.text] else [] := by
  by_cases h : t.kind = kind <;> simp [texts, h]

lemma wordsOf_concat (us : List Token) (t : Token) : wordsOf (us ++ [t]) =
    wordsOf us ++ if t.kind = .path ∧ t.text ∉ ["as", "with", "context"] then [t] else [] := by
  rw [wordsOf, List.filter_append, List.filter_singleton, wordsOf]
  simp

lemma mentionsContext_concat (us : List Token) (t : Token) : mentionsContext (us ++ [t]) =
    (mentionsContext us || decide (t.kind = .path ∧ (t.text = "with" ∨ t.text = "context"))) := by
  rw [Bool.eq_iff_iff]
  simp only [mentionsContext, texts_concat, Bool.or_eq_true, decide_eq_true_eq, List.mem_append]
  by_cases h : t.kind = .path
  · simp only [h, if_true, List.mem_singleton, true_and]
    tauto
  · simp [h]

lemma begins_concat : Begins (us ++ [t]) ↔ Begins us ∧
    (t.kind ∈ [.blank, .comma, .path] ∨ t.kind = .string ∧ texts .string us = []) := by
  constructor
  · rintro ⟨hkinds, hliterals⟩
    rw [texts_concat, List.length_append] at hliterals
    refine ⟨⟨fun u hu => hkinds u (List.mem_append_left _ hu), by omega⟩, ?_⟩
    have hkind := hkinds t (by simp)
    by_cases hstring : t.kind = .string
    · rw [if_pos hstring, List.length_singleton] at hliterals
      exact .inr ⟨hstring, List.length_eq_zero_iff.1 (by omega)⟩
    · exact .inl (by simpa [hstring] using hkind)
  · rintro ⟨hus, ht⟩
    have hkind : t.kind ∈ [.blank, .comma, .path, .string] := by
      obtain ht | ⟨ht, -⟩ := ht
      · simp only [List.mem_cons, List.not_mem_nil, or_false] at ht ⊢
        tauto
      · simp [ht]
    refine ⟨List.forall_mem_append.2 ⟨hus.kinds, List.forall_mem_singleton.2 hkind⟩, ?_⟩
    rw [texts_concat]
    obtain ht | ⟨ht, hnone⟩ := ht
    · have hstring : t.kind ≠ .string := by
        rintro heq
        simp [heq] at ht
      simpa [hstring] using hus.literals
    · simp [ht, hnone]

/-- White space and commas say nothing. -/
lemma found_concat_of_separator (h : t.kind = .blank ∨ t.kind = .comma) :
    found (us ++ [t]) = found us := by
  have hne : t.kind ≠ .string ∧ t.kind ≠ .path := by
    obtain h | h := h <;> simp [h]
  simp [found, texts_concat, wordsOf_concat, mentionsContext_concat, hne]

lemma found_concat_of_string (h : t.kind = .string) (hus : texts .string us = []) :
    found (us ++ [t]) = { found us with path := some (pathOf t.text) } := by
  simp [found, texts_concat, wordsOf_concat, mentionsContext_concat, h, hus]

lemma found_concat_of_path (h : t.kind = .path) : found (us ++ [t]) =
    if t.text = "as" then found us
    else if t.text = "with" ∨ t.text = "context" then { found us with withContext := true }
    else { found us with words := (found us).words ++ [t] } := by
  simp only [found, texts_concat, wordsOf_concat, mentionsContext_concat, h]
  split_ifs <;> simp_all

/-- One step of the scan. -/
lemma feed_found_eq_ok_iff (hus : Begins us) :
    (found us).feed tag t = .ok f ↔ Begins (us ++ [t]) ∧ f = found (us ++ [t]) := by
  have accepted {P : Prop} (hP : P) (g : Found) :
      (.ok g : Except SyntaxError Found) = .ok f ↔ P ∧ f = g := by
    rw [and_iff_right hP, Except.ok.injEq]
    exact eq_comm
  rw [begins_concat, and_iff_right hus, Found.feed]
  split
  next hkind =>
    rw [found_concat_of_separator (.inl hkind)]
    exact accepted (.inl (by simp [hkind])) _
  next hkind =>
    rw [found_concat_of_separator (.inr hkind)]
    exact accepted (.inl (by simp [hkind])) _
  next hkind =>
    cases hliterals : texts .string us with
    | nil =>
      have hpath : (found us).path.isNone = true := by simp [found, hliterals]
      rw [found_concat_of_string hkind hliterals, if_pos hpath]
      exact accepted (.inr ⟨hkind, rfl⟩) _
    | cons literal literals => simp [found, hkind, hliterals]
  next hkind =>
    rw [found_concat_of_path hkind]
    split_ifs <;> exact accepted (.inl (by simp [hkind])) _
  next hblank hcomma hstring hpath =>
    refine iff_of_false (by simp) fun h => ?_
    have hkind := h.1
    simp only [List.mem_cons, List.not_mem_nil, or_false] at hkind
    tauto

/-- **The whole scan.** -/
lemma foldlM_feed_eq_ok_iff :
    ts.foldlM (Found.feed tag) {} = .ok f ↔ Begins ts ∧ f = found ts := by
  induction ts using List.reverseRecOn generalizing f with
  | nil =>
    have hbegins : Begins [] := ⟨by simp, by simp [texts]⟩
    rw [and_iff_right hbegins]
    exact ⟨fun h => (Except.ok.inj h).symm, fun h => congrArg _ h.symm⟩
  | append_singleton us t ih =>
    rw [List.foldlM_append]
    constructor
    · intro h
      obtain ⟨g, hg, h⟩ := ok_of_bind h
      obtain ⟨hus, rfl⟩ := ih.1 hg
      obtain ⟨f', hf', h⟩ := ok_of_bind h
      cases h
      exact (feed_found_eq_ok_iff hus).1 hf'
    · rintro ⟨hts, rfl⟩
      have hus := (begins_concat.1 hts).1
      rw [bind_eq_of_ok (ih.2 ⟨hus, rfl⟩), List.foldlM_cons,
        bind_eq_of_ok ((feed_found_eq_ok_iff hus).2 ⟨hts, rfl⟩)]
      rfl

/-- What is read of a header. -/
lemma ofTokens_eq_ok_iff {header : Header} : ofTokens tag place ts = .ok header ↔
    ∃ literal, Forms ts literal ∧
      header = ⟨pathOf literal, wordsOf ts, mentionsContext ts⟩ := by
  constructor
  · intro h
    obtain ⟨f, hf, h⟩ := ok_of_bind h
    obtain ⟨hts, rfl⟩ := foldlM_feed_eq_ok_iff.1 hf
    split at h
    next => cases h
    next path hpath =>
      cases h
      obtain ⟨literal, hliteral, rfl⟩ := Option.map_eq_some_iff.1 hpath
      obtain ⟨rest, hrest⟩ := List.head?_eq_some_iff.1 hliteral
      have hlength := hts.literals
      rw [hrest, List.length_cons] at hlength
      obtain rfl := List.length_eq_zero_iff.1 (show rest.length = 0 by omega)
      exact ⟨literal, ⟨hts.kinds, hrest⟩, rfl⟩
  · rintro ⟨literal, hforms, rfl⟩
    have hbegins : Begins ts := ⟨hforms.kinds, by simp [hforms.literal]⟩
    rw [ofTokens, bind_eq_of_ok (foldlM_feed_eq_ok_iff.2 ⟨hbegins, rfl⟩)]
    simp [found, hforms.literal]
    rfl

end Scan

/-! ### Rearranged headers -/

/-- The tokens that neither separate nor say which file is meant. -/
def others (ts : List Token) : List Token :=
  ts.filter (·.kind ∉ [.blank, .comma, .string])

/-- **The headers are rearranged**: they differ in where the literals stand, and in white space and
commas. -/
structure Rearranged (ts ts' : List Token) : Prop where
  literals : texts .string ts = texts .string ts'
  alike : Alike (others ts) (others ts')

section Rearranged

variable {ts ts' : List Token}

lemma Rearranged.symm (h : Rearranged ts ts') : Rearranged ts' ts :=
  ⟨h.literals.symm, h.alike.symm⟩

/-- What is picked of the tokens without separators and literals looks the same. -/
lemma Rearranged.seen (h : Rearranged ts ts') {p : TokenKind × String → Bool}
    (hp : ∀ s, p s = true → s.1 ∉ [.blank, .comma, .string]) :
    (ts.filter fun t => p t.seen).map Token.seen =
      (ts'.filter fun t => p t.seen).map Token.seen := by
  have hothers (ts : List Token) :
      ((others ts).map Token.seen).filter p = (ts.filter fun t => p t.seen).map Token.seen := by
    rw [List.filter_map, others, List.filter_filter]
    refine congrArg _ (List.filter_congr fun t _ => ?_)
    cases ht : p t.seen with
    | false => simp [ht]
    | true =>
      rw [Function.comp_apply, ht, Bool.true_and]
      exact decide_eq_true (hp t.seen ht)
  calc (ts.filter fun t => p t.seen).map Token.seen
      = ((others ts).map Token.seen).filter p := (hothers ts).symm
    _ = ((others ts').map Token.seen).filter p := by rw [h.alike]
    _ = (ts'.filter fun t => p t.seen).map Token.seen := hothers ts'

lemma Rearranged.words_eq (h : Rearranged ts ts') :
    (wordsOf ts).map (·.text) = (wordsOf ts').map (·.text) := by
  have hseen := h.seen (p := fun s => s.1 = .path ∧ s.2 ∉ ["as", "with", "context"])
    fun s hs => by simp [(of_decide_eq_true hs).1]
  have htexts := congrArg (List.map Prod.snd) hseen
  rwa [List.map_map, List.map_map] at htexts

lemma Rearranged.mentionsContext_eq (h : Rearranged ts ts') :
    mentionsContext ts = mentionsContext ts' := by
  have hseen := h.seen (p := fun s => s.1 = .path) fun s hs => by simp [of_decide_eq_true hs]
  have htexts : texts .path ts = texts .path ts' := by
    have htexts := congrArg (List.map Prod.snd) hseen
    rwa [List.map_map, List.map_map] at htexts
  rw [mentionsContext, mentionsContext, htexts]

lemma Rearranged.forms (h : Rearranged ts ts') {literal : String} (hts : Forms ts literal) :
    Forms ts' literal := by
  refine ⟨?_, h.literals.symm.trans hts.literal⟩
  have hseen := h.seen (p := fun s => s.1 ∉ [.blank, .comma, .path, .string]) fun s hs => by
    have hs := of_decide_eq_true hs
    simp only [List.mem_cons, List.not_mem_nil, or_false] at hs ⊢
    tauto
  have hnone : (ts.filter fun t => t.seen.1 ∉ [.blank, .comma, .path, .string]) = [] :=
    List.filter_eq_nil_iff.2 fun t ht hkind => of_decide_eq_true hkind (hts.kinds t ht)
  rw [hnone, List.map_nil, eq_comm, List.map_eq_nil_iff, List.filter_eq_nil_iff] at hseen
  intro t ht
  by_contra hkind
  exact hseen t ht (decide_eq_true hkind)

end Rearranged

end Header

/-! ### The import tag -/

/-- **The import tag** accepts headers with one word, a name without a dot. -/
lemma ImportAll.ofTokens_eq_ok_iff {place : Place} {ts : List Token} {header : ImportAll} :
    ofTokens place ts = .ok header ↔ ∃ literal handle, Header.Forms ts literal ∧
      (Header.wordsOf ts).map (·.text) = [handle] ∧ '.' ∉ handle.toList ∧
      header = ⟨Header.pathOf literal, handle, Header.mentionsContext ts⟩ := by
  constructor
  · intro h
    obtain ⟨found, hfound, h⟩ := ok_of_bind h
    obtain ⟨literal, hforms, rfl⟩ := Header.ofTokens_eq_ok_iff.1 hfound
    split at h
    next => cases h
    next => cases h
    next handle hwords =>
      split at h
      next hplain =>
        cases h
        refine ⟨literal, handle.text, hforms, congrArg (List.map (·.text)) hwords, ?_, rfl⟩
        simpa [Token.isPlain] using hplain
      next => cases h
  · rintro ⟨literal, handle, hforms, hwords, hplain, rfl⟩
    obtain ⟨t, ht, rfl⟩ := List.map_eq_singleton_iff.1 hwords
    have hheader : Header.ofTokens "import" place ts =
        .ok ⟨Header.pathOf literal, Header.wordsOf ts, Header.mentionsContext ts⟩ :=
      Header.ofTokens_eq_ok_iff.2 ⟨literal, hforms, rfl⟩
    rw [ofTokens, bind_eq_of_ok hheader, ht]
    exact if_pos (by simpa [Token.isPlain] using hplain)

/-! ### The from tag -/

namespace ImportNames

lemma splitAtImport_eq_none_iff {ts : List Token} :
    splitAtImport ts = none ↔ ∀ t ∈ ts, t.text ≠ "import" := by
  induction ts with
  | nil => simp [splitAtImport]
  | cons t rest ih =>
    rw [List.forall_mem_cons, ← ih, splitAtImport]
    split
    next hrest => simp [hrest]
    next hrest => simp [hrest]

/-- **The last `import` divides the words.** -/
lemma splitAtImport_eq_some_iff {ts before after : List Token} :
    splitAtImport ts = some (before, after) ↔
      ∃ t, t.text = "import" ∧ ts = before ++ t :: after ∧ ∀ u ∈ after, u.text ≠ "import" := by
  induction ts generalizing before with
  | nil => simp [splitAtImport]
  | cons t rest ih =>
    constructor
    · intro h
      rw [splitAtImport] at h
      split at h
      next before' after' hrest =>
        cases h
        obtain ⟨u, hu, rfl, hafter⟩ := ih.1 hrest
        exact ⟨u, hu, rfl, hafter⟩
      next hrest =>
        split at h
        next ht =>
          cases h
          exact ⟨t, ht, rfl, splitAtImport_eq_none_iff.1 hrest⟩
        next => cases h
    · rintro ⟨u, hu, heq, hafter⟩
      cases before with
      | nil =>
        obtain ⟨rfl, rfl⟩ := List.cons.inj heq
        rw [splitAtImport, splitAtImport_eq_none_iff.2 hafter]
        exact if_pos hu
      | cons t' before =>
        obtain ⟨rfl, hrest⟩ := List.cons.inj heq
        rw [splitAtImport, ih.2 ⟨u, hu, hrest, hafter⟩]

/-- What is already kept is not kept again. -/
lemma eraseDups_removeAll_cons (done : List String) (name : String) (names : List String) :
    done ++ ((name :: names).removeAll done).eraseDups =
      (if name ∈ done then done else done ++ [name]) ++
        (names.removeAll (if name ∈ done then done else done ++ [name])).eraseDups := by
  by_cases hmem : name ∈ done
  · simp [hmem, List.cons_removeAll]
  · have hfilter : (names.removeAll done).filter (fun other => !other == name) =
        names.removeAll (done ++ [name]) := by
      simp only [List.removeAll, List.filter_filter]
      refine List.filter_congr fun other _ => ?_
      by_cases hname : other = name <;> simp [hname]
    rw [if_neg hmem, List.cons_removeAll, if_pos (by simpa using hmem), List.eraseDups_cons,
      hfilter, List.append_assoc, List.singleton_append]

/-- The names are kept in the order of their first places. -/
lemma collect_eq_ok_iff {ts : List Token} {done names : List String} :
    collect done ts = .ok names ↔ (∀ t ∈ ts, '.' ∉ t.text.toList) ∧
      names = done ++ ((ts.map (·.text)).removeAll done).eraseDups := by
  induction ts generalizing done with
  | nil => simp [collect, eq_comm]
  | cons t rest ih =>
    have hplain : t.isPlain = true ↔ '.' ∉ t.text.toList := by simp [Token.isPlain]
    rw [collect, List.forall_mem_cons, List.map_cons, ← hplain, eraseDups_removeAll_cons]
    by_cases ht : t.isPlain = true
    · rw [if_pos ht, ih, and_iff_right ht]
      simp only [List.contains_iff_mem]
    · rw [if_neg ht]
      exact iff_of_false (by simp) fun h => ht h.1.1

lemma isEmpty_eraseDups (names : List String) : names.eraseDups.isEmpty = true ↔ names = [] := by
  cases names with
  | nil => simp
  | cons name names => simp [List.eraseDups_cons]

/-- **The from tag** accepts headers with `import` in front of the words and names behind it. -/
lemma ofTokens_eq_ok_iff {place : Place} {ts : List Token} {header : ImportNames} :
    ofTokens place ts = .ok header ↔ ∃ literal names, Header.Forms ts literal ∧
      (Header.wordsOf ts).map (·.text) = "import" :: names ∧ names ≠ [] ∧
      (∀ name ∈ names, '.' ∉ name.toList ∧ name ≠ "import") ∧
      header = ⟨Header.pathOf literal, names.eraseDups, Header.mentionsContext ts⟩ := by
  have hcollect {listed : List Token} {names : List String} : collect [] listed = .ok names ↔
      (∀ t ∈ listed, '.' ∉ t.text.toList) ∧ names = (listed.map (·.text)).eraseDups := by
    simpa using @collect_eq_ok_iff listed [] names
  constructor
  · intro h
    obtain ⟨found, hfound, h⟩ := ok_of_bind h
    obtain ⟨literal, hforms, rfl⟩ := Header.ofTokens_eq_ok_iff.1 hfound
    split at h
    next => cases h
    next => cases h
    next listed hsplit =>
      obtain ⟨t, ht, hwords, hlisted⟩ := splitAtImport_eq_some_iff.1 hsplit
      obtain ⟨names, hnames, h⟩ := ok_of_bind h
      obtain ⟨hplain, rfl⟩ := hcollect.1 hnames
      split at h
      next => cases h
      next hne =>
        cases h
        refine ⟨literal, listed.map (·.text), hforms, ?_, (isEmpty_eraseDups _).not.1 hne, ?_, rfl⟩
        · rw [← ht]
          exact congrArg (List.map (·.text)) hwords
        · rw [List.forall_mem_map]
          exact fun u hu => ⟨hplain u hu, hlisted u hu⟩
  · rintro ⟨literal, names, hforms, hwords, hne, hnames, rfl⟩
    obtain ⟨t, listed, hlisted, ht, rfl⟩ := List.map_eq_cons_iff.1 hwords
    rw [List.forall_mem_map] at hnames
    have hheader : Header.ofTokens "from" place ts =
        .ok ⟨Header.pathOf literal, Header.wordsOf ts, Header.mentionsContext ts⟩ :=
      Header.ofTokens_eq_ok_iff.2 ⟨literal, hforms, rfl⟩
    have hsplit : splitAtImport (Header.wordsOf ts) = some ([], listed) :=
      splitAtImport_eq_some_iff.2 ⟨t, ht, hlisted, fun u hu => (hnames u hu).2⟩
    rw [ofTokens, bind_eq_of_ok hheader]
    dsimp only
    rw [hsplit]
    dsimp only
    rw [bind_eq_of_ok (hcollect.2 ⟨fun u hu => (hnames u hu).1, rfl⟩)]
    exact if_neg ((isEmpty_eraseDups _).not.2 hne)

end ImportNames

/-! ### Both tags -/

section Tags

variable {place : Place} {ts : List Token} {args : TagArgs}

lemma TagKind.read_importNames_eq_ok_iff : TagKind.importNames.read place ts = .ok args ↔
    ∃ literal names, Header.Forms ts literal ∧
      (Header.wordsOf ts).map (·.text) = "import" :: names ∧ names ≠ [] ∧
      (∀ name ∈ names, '.' ∉ name.toList ∧ name ≠ "import") ∧
      args = .importNames
        ⟨Header.pathOf literal, names.eraseDups, Header.mentionsContext ts⟩ := by
  refine bind_pure_eq_ok_iff.trans ?_
  simp only [ImportNames.ofTokens_eq_ok_iff]
  constructor
  · rintro ⟨_, ⟨literal, names, hforms, hwords, hne, hnames, rfl⟩, rfl⟩
    exact ⟨literal, names, hforms, hwords, hne, hnames, rfl⟩
  · rintro ⟨literal, names, hforms, hwords, hne, hnames, rfl⟩
    exact ⟨_, ⟨literal, names, hforms, hwords, hne, hnames, rfl⟩, rfl⟩

lemma TagKind.read_importAll_eq_ok_iff : TagKind.importAll.read place ts = .ok args ↔
    ∃ literal handle, Header.Forms ts literal ∧
      (Header.wordsOf ts).map (·.text) = [handle] ∧ '.' ∉ handle.toList ∧
      args = .importAll ⟨Header.pathOf literal, handle, Header.mentionsContext ts⟩ := by
  refine bind_pure_eq_ok_iff.trans ?_
  simp only [ImportAll.ofTokens_eq_ok_iff]
  constructor
  · rintro ⟨_, ⟨literal, handle, hforms, hwords, hplain, rfl⟩, rfl⟩
    exact ⟨literal, handle, hforms, hwords, hplain, rfl⟩
  · rintro ⟨literal, handle, hforms, hwords, hplain, rfl⟩
    exact ⟨_, ⟨literal, handle, hforms, hwords, hplain, rfl⟩, rfl⟩

/-- What is read of a header is read of every rearranged one. -/
lemma Header.Rearranged.read {ts' : List Token} (h : Header.Rearranged ts ts') {kind : TagKind}
    (hkind : kind = .importNames ∨ kind = .importAll) (place' : Place)
    (hread : kind.read place ts = .ok args) : kind.read place' ts' = .ok args := by
  obtain rfl | rfl := hkind
  · obtain ⟨literal, names, hforms, hwords, hne, hnames, rfl⟩ :=
      TagKind.read_importNames_eq_ok_iff.1 hread
    rw [h.words_eq] at hwords
    rw [h.mentionsContext_eq]
    exact TagKind.read_importNames_eq_ok_iff.2
      ⟨literal, names, h.forms hforms, hwords, hne, hnames, rfl⟩
  · obtain ⟨literal, handle, hforms, hwords, hplain, rfl⟩ :=
      TagKind.read_importAll_eq_ok_iff.1 hread
    rw [h.words_eq] at hwords
    rw [h.mentionsContext_eq]
    exact TagKind.read_importAll_eq_ok_iff.2
      ⟨literal, handle, h.forms hforms, hwords, hplain, rfl⟩

end Tags

/-- **Import headers are accepted exactly.** A from tag is read if its tokens are a header, the
first of the words is `import`, and behind it there are names without dots, none of which is
`import` again; the names are taken once each, in the order of their first places. An import tag is
read if its tokens are a header with a single word, a name without a dot. Both note whether `with`
or `context` is among the variables, and neither sees where the literal stands among the words, or
where the separators stand. -/
theorem headers_exact (place : Place) (ts : List Token) :
    (∀ args, TagKind.importNames.read place ts = .ok args ↔ ∃ literal names,
      Header.Forms ts literal ∧ (Header.wordsOf ts).map (·.text) = "import" :: names ∧
      names ≠ [] ∧ (∀ name ∈ names, '.' ∉ name.toList ∧ name ≠ "import") ∧
      args = .importNames
        ⟨Header.pathOf literal, names.eraseDups, Header.mentionsContext ts⟩) ∧
    (∀ args, TagKind.importAll.read place ts = .ok args ↔ ∃ literal handle,
      Header.Forms ts literal ∧ (Header.wordsOf ts).map (·.text) = [handle] ∧
      '.' ∉ handle.toList ∧
      args = .importAll ⟨Header.pathOf literal, handle, Header.mentionsContext ts⟩) ∧
    ∀ kind, kind = TagKind.importNames ∨ kind = TagKind.importAll → ∀ place' ts',
      Header.Rearranged ts ts' →
      ∀ args, kind.read place ts = .ok args ↔ kind.read place' ts' = .ok args :=
  ⟨fun _ => TagKind.read_importNames_eq_ok_iff, fun _ => TagKind.read_importAll_eq_ok_iff,
    fun _ hkind place' _ h _ => ⟨h.read hkind place', h.symm.read hkind place⟩⟩

/-- The tokens of ` "lib" import a,b,a with context`. -/
def Header.orderly : List Token :=
  [⟨.blank, " ", ⟨0, 1⟩, 1⟩, ⟨.string, "\"lib\"", ⟨1, 6⟩, 1⟩, ⟨.blank, " ", ⟨6, 7⟩, 1⟩,
    ⟨.path, "import", ⟨7, 13⟩, 1⟩, ⟨.blank, " ", ⟨13, 14⟩, 1⟩, ⟨.path, "a", ⟨14, 15⟩, 1⟩,
    ⟨.comma, ",", ⟨15, 16⟩, 1⟩, ⟨.path, "b", ⟨16, 17⟩, 1⟩, ⟨.comma, ",", ⟨17, 18⟩, 1⟩,
    ⟨.path, "a", ⟨18, 19⟩, 1⟩, ⟨.blank, " ", ⟨19, 20⟩, 1⟩, ⟨.path, "with", ⟨20, 24⟩, 1⟩,
    ⟨.blank, " ", ⟨24, 25⟩, 1⟩, ⟨.path, "context", ⟨25, 32⟩, 1⟩]

/-- The tokens of `,import a b "lib" a with,context`. -/
def Header.scattered : List Token :=
  [⟨.comma, ",", ⟨0, 1⟩, 1⟩, ⟨.path, "import", ⟨1, 7⟩, 1⟩, ⟨.blank, " ", ⟨7, 8⟩, 1⟩,
    ⟨.path, "a", ⟨8, 9⟩, 1⟩, ⟨.blank, " ", ⟨9, 10⟩, 1⟩, ⟨.path, "b", ⟨10, 11⟩, 1⟩,
    ⟨.blank, " ", ⟨11, 12⟩, 1⟩, ⟨.string, "\"lib\"", ⟨12, 17⟩, 1⟩, ⟨.blank, " ", ⟨17, 18⟩, 1⟩,
    ⟨.path, "a", ⟨18, 19⟩, 1⟩, ⟨.blank, " ", ⟨19, 20⟩, 1⟩, ⟨.path, "with", ⟨20, 24⟩, 1⟩,
    ⟨.comma, ",", ⟨24, 25⟩, 1⟩, ⟨.path, "context", ⟨25, 32⟩, 1⟩]

/-- A header is read in either order. -/
theorem scattered_read : Header.Rearranged Header.orderly Header.scattered ∧
    TagKind.importNames.read ⟨1, ⟨0, 32⟩⟩ Header.orderly =
      .ok (.importNames ⟨"lib", ["a", "b"], true⟩) ∧
    TagKind.importNames.read ⟨1, ⟨0, 32⟩⟩ Header.scattered =
      .ok (.importNames ⟨"lib", ["a", "b"], true⟩) := by
  have hrearranged : Header.Rearranged Header.orderly Header.scattered :=
    ⟨by decide, by unfold Alike; decide⟩
  have hread : TagKind.importNames.read ⟨1, ⟨0, 32⟩⟩ Header.orderly =
      .ok (.importNames ⟨"lib", ["a", "b"], true⟩) := rfl
  exact ⟨hrearranged, hread,
    ((headers_exact _ _).2.2 _ (.inl rfl) _ _ hrearranged _).1 hread⟩

end Stencil
