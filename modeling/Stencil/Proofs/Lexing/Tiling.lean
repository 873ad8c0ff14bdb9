import Stencil.Proofs.Except
import Stencil.Proofs.Lexing.Chunk

/-!
Tokens tile their text. A token that has been cut from a text is cut from it again when the text is
**cut short** somewhere behind the token (`scan?_of_front`): what decides on a token is what it is
*not* followed by, and where the text ends nothing follows. Therefore the tokens in front of a place
where no rule matches are the tokens of the text up to that place.

Spans **tile** a range of bytes (`Tiles`) if they lie end to end and none is empty. A token
**stands** in a text (`Stands`) if its span covers its text and what belongs to it, and its line is
counted from the start of the text. `tokenize_tiles` says that the tokens of a text stand in it and
tile it, or else that the tokens of a front of it do, behind which one character is reported that
starts no token; and that cutting goes on for finitely many tokens only.
-/

namespace Stencil

namespace Token

open Text

/-! ### Texts cut short -/

section Short

variable {cs rest rest' : List Char} {l : Lexeme}

lemma head_of_front (h : rest' <+: rest) {c : Char} (hc : c ∈ rest'.head?) : c ∈ rest.head? := by
  obtain ⟨more, rfl⟩ := h
  cases rest' with
  | nil => cases hc
  | cons d ds => exact hc

/-- What comes next behind blanks is no other than before. -/
lemma head_dropWhile_of_front (h : rest' <+: rest) {c : Char}
    (hc : c ∈ (rest'.dropWhile isBlank).head?) : c ∈ (rest.dropWhile isBlank).head? := by
  obtain ⟨more, rfl⟩ := h
  rw [List.dropWhile_append]
  split
  next hnil => simp [List.isEmpty_iff.1 hnil] at hc
  next => exact head_of_front (List.prefix_append _ more) hc

/-- A point with no digit behind it starts no fraction. -/
lemma fraction_eq_of_takeWhile (h : ∀ ds, cs = '.' :: ds → ds.takeWhile isDigit = []) :
    fraction cs = ([], cs) := by
  unfold fraction
  split
  next ds => rw [h ds rfl, List.isEmpty_nil, if_pos rfl]
  next => rfl

lemma takeWhile_of_front {p : Char → Bool} (h : rest' <+: rest) (hrest : rest.takeWhile p = []) :
    rest'.takeWhile p = [] := by
  obtain ⟨more, rfl⟩ := h
  cases rest' with
  | nil => rfl
  | cons c tail => simpa [List.takeWhile_cons] using hrest

lemma fraction_of_front (h : rest' <+: (fraction cs).2) :
    fraction ((fraction cs).1 ++ rest') = ((fraction cs).1, rest') := by
  have hnone (hcs : ∀ ds, cs = '.' :: ds → ds.takeWhile isDigit = []) :
      fraction ((fraction cs).1 ++ rest') = ((fraction cs).1, rest') := by
    rw [fraction_eq_of_takeWhile hcs] at h ⊢
    refine fraction_eq_of_takeWhile fun ds hds => ?_
    subst hds
    obtain ⟨more, hmore⟩ := h
    exact takeWhile_of_front (List.prefix_append ds more) (hcs _ hmore.symm)
  cases cs with
  | nil => exact hnone (by simp)
  | cons c ds =>
    by_cases hfraction : c = '.' ∧ ds.takeWhile isDigit ≠ []
    · obtain ⟨rfl, hdigits⟩ := hfraction
      have hsome : fraction ('.' :: ds) = ('.' :: ds.takeWhile isDigit, ds.dropWhile isDigit) := by
        rw [fraction, if_neg (by simpa using hdigits)]
      rw [hsome] at h ⊢
      have hall : ∀ d ∈ ds.takeWhile isDigit, isDigit d = true :=
        fun d hd => List.mem_takeWhile_imp hd
      obtain ⟨htake, hdrop⟩ := takeWhile_dropWhile_of_head fun d hd =>
        head_of_dropWhile ds d (head_of_front h hd)
      rw [List.cons_append, fraction, List.takeWhile_append_of_pos hall,
        List.dropWhile_append_of_pos hall, htake, hdrop, List.append_nil,
        if_neg (by simpa using hdigits)]
    · refine hnone fun tail htail => ?_
      cases htail
      simpa using hfraction

lemma unsigned_of_front (h : unsigned cs = some l) (hrest : rest' <+: l.rest) :
    unsigned (l.text ++ rest') = some ⟨l.text, [], rest'⟩ := by
  obtain ⟨digits, hdigits, rfl⟩ := exists_of_unsigned h
  obtain ⟨c, ds, rfl, hc, rfl⟩ := exists_of_run hdigits
  have hfront : (fraction (ds.dropWhile isDigit)).1 ++ rest' <+: ds.dropWhile isDigit := by
    obtain ⟨more, hmore⟩ := hrest
    exact ⟨more, by rw [List.append_assoc, hmore, fraction_append]⟩
  have hagain := run_again hdigits fun d hd =>
    head_of_dropWhile ds d (head_of_front hfront hd)
  dsimp only at hagain hrest ⊢
  rw [unsigned, List.append_assoc, hagain]
  simp [fraction_of_front hrest]

lemma numeral_of_front (h : numeral cs = some l) (hrest : rest' <+: l.rest) :
    numeral (l.text ++ rest') = some ⟨l.text, [], rest'⟩ := by
  obtain ⟨sign, ds, l', hsign, rfl, hl', rfl⟩ := exists_of_numeral h
  have hagain := unsigned_of_front hl' hrest
  obtain ⟨c, tail, htext, hc⟩ := head_of_unsigned hl'
  obtain rfl | rfl | rfl := hsign
  · have hsign : ¬ (c = '+' || c = '-') = true := by
      intro hsign
      obtain rfl | rfl : c = '+' ∨ c = '-' := by simpa using hsign
      · cases hc
      · cases hc
    rw [htext] at hagain
    dsimp only
    rw [List.nil_append, htext, List.cons_append, numeral, if_neg hsign]
    exact hagain
  · simp [numeral, hagain]
  · simp [numeral, hagain]

lemma pathTail_of_front (h : rest' <+: (pathTail cs).2) :
    pathTail ((pathTail cs).1 ++ rest') = ((pathTail cs).1, rest') := by
  fun_induction pathTail cs with
  | case1 => rw [List.prefix_nil.1 h]; rfl
  | case2 c hc => rw [List.prefix_nil.1 h]; simp [pathTail_cons hc, pathTail]
  | case3 c hc =>
    cases rest' with
    | nil => rfl
    | cons d ds =>
      obtain ⟨rfl, hds⟩ := List.cons_prefix_cons.1 h
      rw [List.prefix_nil.1 hds]
      simp [pathTail, hc]
  | case4 c d cs hc r ih => simp [pathTail_cons hc, r, ih h]
  | case5 c d cs hc hdot r ih =>
    have hpoint : isNamePart '.' = false := by decide
    have hd : isNameStart d = true := (Bool.and_eq_true_iff.1 hdot).2
    simp [pathTail, hpoint, hd, r, ih h]
  | case6 c d cs hc hdot =>
    cases rest' with
    | nil => rfl
    | cons c' ds =>
      obtain ⟨rfl, hds⟩ := List.cons_prefix_cons.1 h
      cases ds with
      | nil => simp [pathTail, hc]
      | cons d' ds =>
        obtain ⟨rfl, _⟩ := List.cons_prefix_cons.1 hds
        rw [List.nil_append, pathTail, if_neg hc, if_neg hdot]

lemma path_of_front (h : path cs = some l) (hrest : rest' <+: l.rest) :
    path (l.text ++ rest') = some ⟨l.text, [], rest'⟩ := by
  obtain ⟨c, ds, rfl, hc, rfl⟩ := exists_of_path h
  simp [path, hc, pathTail_of_front hrest]

lemma spaced_eq_none_of_front {c : Char} (h : spaced c rest = none) (hrest : rest' <+: rest) :
    spaced c rest' = none := by
  refine spaced_eq_none fun d hd => ?_
  obtain ⟨tail, htail⟩ := List.head?_eq_some_iff.1 (head_dropWhile_of_front hrest hd)
  rw [spaced, htail] at h
  rintro rfl
  simp at h

/-- An operator of one character is not the front of a longer one. -/
lemma operator_of_front (h : operator cs = some l) (hrest : rest' <+: l.rest) :
    operator (l.text ++ rest') = some ⟨l.text, [], rest'⟩ := by
  unfold operator at h
  split at h
  next => cases h
  next c =>
    split at h
    next hc =>
      cases h
      rw [List.prefix_nil.1 hrest]
      exact if_pos hc
    next => cases h
  next c d ds =>
    split at h
    next hlong =>
      cases h
      rw [List.cons_append, List.cons_append, operator, if_pos hlong, List.nil_append]
    next hlong =>
      split at h
      next hc =>
        cases h
        cases rest' with
        | nil => exact if_pos hc
        | cons d' ds' =>
          obtain ⟨rfl, _⟩ := List.cons_prefix_cons.1 hrest
          rw [List.singleton_append, operator, if_neg hlong, if_pos hc]
      next => cases h

end Short

/-! ### Tokens in texts cut short -/

section Again

variable {cs rest : List Char} {l : Lexeme}

/-- A word is not the front of a longer one. -/
lemma head_of_word {w : String} (h : word w cs = some l) :
    ∀ c ∈ l.rest.head?, isWord c = false := by
  rw [word] at h
  split at h
  next hfront =>
    cases h
    intro c hc
    have hnext := (Bool.and_eq_true_iff.1 hfront).2
    dsimp only at hc
    rw [hc] at hnext
    simpa using hnext
  next => cases h

/-- What an operator starts with starts nothing else, unless it is the sign of a number. -/
lemma head_of_operator (h : operator cs = some l) :
    ∃ c tail, cs = c :: tail ∧ isBlank c = false ∧ isNameStart c = false ∧
      c ∉ ['"', '\'', 't', 'f', 'n'] := by
  have hshort : ∀ c ∈ shortOperators, isBlank c = false ∧ isNameStart c = false ∧
      c ∉ ['"', '\'', 't', 'f', 'n'] := by
    simp only [shortOperators, List.forall_mem_cons, List.not_mem_nil, false_imp_iff, implies_true,
      and_true]
    decide
  have hlong : ∀ q ∈ longOperators, isBlank q.1 = false ∧ isNameStart q.1 = false ∧
      q.1 ∉ ['"', '\'', 't', 'f', 'n'] := by decide
  unfold operator at h
  split at h
  next => cases h
  next c =>
    split at h
    next hc => exact ⟨c, [], rfl, hshort c (by simpa using hc)⟩
    next => cases h
  next c d ds =>
    split at h
    next hc => exact ⟨c, d :: ds, rfl, hlong (c, d) (by simpa using hc)⟩
    next =>
      split at h
      next hc => exact ⟨c, d :: ds, rfl, hshort c (by simpa using hc)⟩
      next => cases h

lemma scan?_of_operator (h : operator cs = some l) (hnumeral : numeral cs = none) :
    scan? cs = some (.operator, l) := by
  obtain ⟨c, tail, rfl, hblank, hname, hne⟩ := head_of_operator h
  simp only [List.mem_cons, List.not_mem_nil, or_false, not_or] at hne
  obtain ⟨hdouble, hquote, ht, hf, hn⟩ := hne
  have hpath : path (c :: tail) = none := by simp [path, hname]
  have hcall : callOpener (c :: tail) = none := by rw [callOpener, hpath]; rfl
  have hempty : emptyCall (c :: tail) = none := by rw [emptyCall, hcall]; rfl
  simp [scan?, rules, firstMatch?, run, stringLiteral, either, hblank, hdouble, hquote, h,
    hnumeral, hempty, hcall, hpath,
    word_cons_eq_none (w := "true") rfl ht, word_cons_eq_none (w := "false") rfl hf,
    word_cons_eq_none (w := "none") rfl hn, word_cons_eq_none (w := "null") rfl hn]

/-- A text that starts with no number starts with none if it is cut short. -/
lemma numeral_eq_none_of_front (h : numeral cs = none) {front : List Char} (hfront : front <+: cs) :
    numeral front = none := by
  have hunsigned {xs ys : List Char} (h : unsigned ys = none) (hxs : xs <+: ys) :
      unsigned xs = none := by
    obtain ⟨more, rfl⟩ := hxs
    cases xs with
    | nil => rfl
    | cons c xs =>
      rw [List.cons_append, unsigned, Option.map_eq_none_iff, run] at h
      split at h
      next => cases h
      next hc => rw [unsigned, run, if_neg hc, Option.map_none]
  cases front with
  | nil => rfl
  | cons c xs =>
    cases cs with
    | nil => cases List.prefix_nil.1 hfront
    | cons d ys =>
      obtain ⟨rfl, hxs⟩ := List.cons_prefix_cons.1 hfront
      rw [numeral] at h ⊢
      split at h
      next hsign => rw [if_pos hsign, hunsigned (Option.map_eq_none_iff.1 h) hxs, Option.map_none]
      next hsign => rw [if_neg hsign, hunsigned h hfront]

/-- **A token is cut again from a text that is cut short behind it.** -/
theorem scan?_of_front {k : TokenKind} (h : scan? cs = some (k, l)) (hrest : rest <+: l.rest) :
    scan? (l.text ++ (l.trail ++ rest)) = some (k, ⟨l.text, l.trail, rest⟩) := by
  have hcut := scan?_cut h
  have htrail := trails_of_scan? h
  cases scanned_of_scan? h with
  | blank hl =>
    have hhead := (head_of_blank h).2
    rw [show l.trail = [] from htrail]
    simp [scan?, rules, firstMatch?, run_again hl fun c hc => hhead c (head_of_front hrest hc)]
  | string hl =>
    obtain ⟨quote, ds, r, hquote, hr, rfl⟩ := exists_of_stringLiteral hl
    exact scan?_string hquote hr
  | word hw hl =>
    have hhead := head_of_word hl
    rw [trails_of_mem_words hw htrail, eq_of_word hl]
    exact scan?_word (fun c hc => hhead c (head_of_front hrest hc)) hw
  | number hl =>
    rw [show l.trail = [] from htrail]
    exact scan?_of_numeral (numeral_of_front hl hrest)
  | emptyCall hl =>
    obtain ⟨l₀, bs, bs', hl₀, hbs, hbs', htext, htrail⟩ := exists_of_emptyCall hl
    rw [htext, htrail]
    simpa using scan?_emptyCall hl₀ (scan?_early 5 h (by decide)) hbs hbs'
  | call hl =>
    obtain ⟨l₀, bs, hl₀, hbs, htext, htrail⟩ := exists_of_callOpener hl
    have hnext := head_of_call h
    rw [htext, htrail]
    simpa using scan?_call hl₀ (scan?_early 5 h (by decide)) hbs
      fun c hc => hnext c (head_dropWhile_of_front hrest hc)
  | path hl =>
    have hmatch := path_of_front hl hrest
    have hopener : callOpener cs = none :=
      scan?_early 7 h (by decide) (.call, callOpener) (by simp [rules])
    rw [callOpener, hl, Option.bind_some, Option.map_eq_none_iff] at hopener
    have hcall : callOpener (l.text ++ rest) = none := by
      rw [callOpener, hmatch, Option.bind_some, spaced_eq_none_of_front hopener hrest]
      rfl
    have hempty : emptyCall (l.text ++ rest) = none := by
      rw [emptyCall, hcall]
      rfl
    rw [show l.trail = [] from htrail, List.nil_append, scan?_of_early
      (early_eq_none hl (scan?_early 5 h (by decide)) fun c hc =>
        head_of_path hl c (head_of_front hrest hc))]
    simp [rules, firstMatch?, hempty, hcall, hmatch]
  | operator hl =>
    have hnone : numeral cs = none :=
      scan?_early 5 h (by decide) (.number, numeral) (by simp [rules])
    have hagain := operator_of_front hl hrest
    rw [show l.trail = [] from htrail]
    refine scan?_of_operator hagain (numeral_eq_none_of_front hnone ?_)
    rw [← hcut.parts, show l.trail = [] from htrail]
    exact List.prefix_append_right_inj _ |>.2 hrest
  | assignment hl =>
    obtain ⟨tail, rfl, rfl⟩ := exists_of_single hl
    refine scan?_assignment fun c hc hequals => ?_
    subst hequals
    obtain ⟨more, rfl⟩ := List.head?_eq_some_iff.1 (head_of_front hrest hc)
    cases h
  | single hc hl =>
    obtain ⟨_, rfl, rfl⟩ := exists_of_single hl
    exact scan?_single hc rest

end Again

/-! ### The loop -/

/-- The text is what is left behind the first token of another one. -/
def Behind (rest cs : List Char) : Prop :=
  ∃ k l, scan? cs = some (k, l) ∧ l.rest = rest

/-- Only finitely many tokens can be cut one after the other. -/
lemma wellFounded_behind : WellFounded Behind := by
  refine Subrelation.wf (r := InvImage (· < ·) List.length) ?_ (InvImage.wf _ Nat.lt_wfRel.wf)
  rintro rest cs ⟨k, l, hscan, rfl⟩
  exact scan?_length hscan

lemma tokenize_nil (offset line : Nat) : tokenize [] offset line = .ok [] := by
  rw [tokenize]

lemma tokenize_of_none {c : Char} {cs : List Char} (h : scan? (c :: cs) = none)
    (offset line : Nat) : tokenize (c :: cs) offset line = .error (scanError c offset line) := by
  rw [tokenize]
  split
  next => rfl
  next hsome => cases h.symm.trans hsome

/-- Where no token starts no rule matches. -/
lemma forall_rules_of_scan? {cs : List Char} (h : scan? cs = none) :
    ∀ q ∈ rules, q.2 cs = none := by
  have hall (rs : List (TokenKind × Rule)) (h : firstMatch? rs cs = none) :
      ∀ q ∈ rs, q.2 cs = none := by
    induction rs with
    | nil => simp
    | cons q rs ih =>
      rw [firstMatch?] at h
      split at h
      next => cases h
      next hnone => exact List.forall_mem_cons.2 ⟨hnone, ih h⟩
  exact hall rules h

/-! ### Tiles -/

/-- **The spans lie end to end** from one offset to another, and none of them is empty. -/
inductive Tiles : Nat → Nat → List Span → Prop
  | nil (offset : Nat) : Tiles offset offset []
  | cons {start stop last : Nat} {spans : List Span} :
      start < stop → Tiles stop last spans → Tiles start last (⟨start, stop⟩ :: spans)

/-- **The token stands in the text**, which starts at byte `offset` on line `line`: the span covers
the text of the token and what belongs to it, and the line is the one it starts on. What opens a
call is a name. -/
structure Stands (t : Token) (cs : List Char) (offset line : Nat) : Prop where
  place : ∃ before trail after, cs = before ++ (t.text.toList ++ (trail ++ after)) ∧
    Trails t.kind trail ∧ t.line = line + newlines before ∧
    t.span = ⟨offset + bytes before, offset + bytes before + bytes (t.text.toList ++ trail)⟩
  named : t.kind = .call ∨ t.kind = .emptyCall →
    path t.text.toList = some ⟨t.text.toList, [], []⟩

section Standing

variable {cs : List Char} {k : TokenKind} {l : Lexeme} {offset line : Nat}

lemma bytes_pos {cs : List Char} (h : cs ≠ []) : 0 < bytes cs := by
  obtain ⟨c, tail, rfl⟩ := List.exists_cons_of_ne_nil h
  have hpos := c.utf8Size_pos
  rw [bytes_cons]
  omega

/-- The text of a call opener is a name. -/
lemma path_of_call (h : scan? cs = some (k, l)) (hk : k = .call ∨ k = .emptyCall) :
    path l.text = some ⟨l.text, [], []⟩ := by
  have hname {l₀ : Lexeme} (hl₀ : path cs = some l₀) (htext : l.text = l₀.text) :
      path l.text = some ⟨l.text, [], []⟩ := by
    rw [htext]
    simpa using path_of_front hl₀ List.nil_prefix
  cases scanned_of_scan? h with
  | emptyCall hl =>
    obtain ⟨l₀, _, _, hl₀, _, _, htext, _⟩ := exists_of_emptyCall hl
    exact hname hl₀ htext
  | call hl =>
    obtain ⟨l₀, _, hl₀, _, htext, _⟩ := exists_of_callOpener hl
    exact hname hl₀ htext
  | word hw => obtain rfl | rfl := kind_of_mem_words hw <;> simp at hk
  | single hc => obtain rfl | rfl := hk <;> simp [singles] at hc
  | _ => simp at hk

/-- The first token stands in its text. -/
lemma stands_first (h : scan? cs = some (k, l)) :
    Stands ⟨k, String.ofList l.text, ⟨offset, offset + bytes (l.text ++ l.trail)⟩, line⟩
      cs offset line where
  place := ⟨[], l.trail, l.rest, by simpa using (scan?_cut h).parts.symm, trails_of_scan? h,
    rfl, by simp⟩
  named hk := by simpa using path_of_call h hk

/-- What stands behind the first token stands in the whole text. -/
lemma Stands.behind {t : Token} (h : scan? cs = some (k, l))
    (ht : t.Stands l.rest (offset + bytes (l.text ++ l.trail))
      (line + newlines (l.text ++ l.trail))) : t.Stands cs offset line where
  place := by
    obtain ⟨before, trail, after, hrest, htrail, hline, hspan⟩ := ht.place
    refine ⟨l.text ++ l.trail ++ before, trail, after, ?_, htrail, ?_, ?_⟩
    · rw [← (scan?_cut h).parts, hrest]
      simp
    · rw [hline, newlines_append _ before, Nat.add_assoc]
    · rw [hspan, bytes_append _ before, Nat.add_assoc]
  named := ht.named

end Standing

/-- The tokens of a text tile it and stand in it. -/
lemma tiles_of_tokenize {cs : List Char} {offset line : Nat} {ts : List Token}
    (h : tokenize cs offset line = .ok ts) :
    Tiles offset (offset + bytes cs) (ts.map (·.span)) ∧ ∀ t ∈ ts, t.Stands cs offset line := by
  induction cs using wellFounded_behind.induction generalizing offset line ts with
  | _ cs ih =>
    cases hscan : scan? cs with
    | none =>
      cases cs with
      | nil =>
        rw [tokenize_nil] at h
        cases h
        exact ⟨.nil offset, by simp⟩
      | cons c cs =>
        rw [tokenize_of_none hscan] at h
        cases h
    | some found =>
      obtain ⟨k, l⟩ := found
      rw [tokenize_of_scan? hscan] at h
      obtain ⟨more, hmore, rfl⟩ := exists_of_map_eq_ok h
      obtain ⟨htiles, hstands⟩ := ih l.rest ⟨k, l, hscan, rfl⟩ hmore
      have hpos : 0 < bytes (l.text ++ l.trail) := bytes_pos (by simp [(scan?_cut hscan).text_ne])
      have hbytes : bytes cs = bytes (l.text ++ l.trail) + bytes l.rest := by
        rw [← (scan?_cut hscan).parts, ← List.append_assoc, bytes_append _ l.rest]
      rw [hbytes, ← Nat.add_assoc]
      exact ⟨.cons (by omega) htiles, List.forall_mem_cons.2
        ⟨stands_first hscan, fun t ht => (hstands t ht).behind hscan⟩⟩

/-- Where cutting fails, the tokens before that place are those of the text up to it. -/
lemma exists_of_tokenize {cs : List Char} {offset line : Nat} {e : SyntaxError}
    (h : tokenize cs offset line = .error e) :
    ∃ done c rest ts, cs = done ++ c :: rest ∧ tokenize done offset line = .ok ts ∧
      scan? (c :: rest) = none ∧ e = scanError c (offset + bytes done) (line + newlines done) := by
  induction cs using wellFounded_behind.induction generalizing offset line with
  | _ cs ih =>
    cases hscan : scan? cs with
    | none =>
      cases cs with
      | nil =>
        rw [tokenize_nil] at h
        cases h
      | cons c cs =>
        rw [tokenize_of_none hscan] at h
        cases h
        exact ⟨[], c, cs, [], rfl, tokenize_nil offset line, hscan, rfl⟩
    | some found =>
      obtain ⟨k, l⟩ := found
      rw [tokenize_of_scan? hscan] at h
      have hrest := eq_error_of_map h
      obtain ⟨done, c, rest, ts, hdone, hts, hnone, rfl⟩ := ih l.rest ⟨k, l, hscan, rfl⟩ hrest
      have hagain := scan?_of_front hscan ⟨c :: rest, hdone.symm⟩
      have hdone' := (tokenize_of_scan? hagain offset line).trans (congrArg (Except.map _) hts)
      refine ⟨l.text ++ (l.trail ++ done), c, rest, _, ?_, hdone', hnone, ?_⟩
      · rw [← (scan?_cut hscan).parts, hdone]
        simp
      · simp [Nat.add_assoc]

/-- **The tokens tile the text**, or those in front of a character that starts no token do. -/
theorem tokenize_tiles (cs : List Char) (offset line : Nat) :
    WellFounded Behind ∧
    match tokenize cs offset line with
    | .ok ts => Tiles offset (offset + bytes cs) (ts.map (·.span)) ∧
        ∀ t ∈ ts, t.Stands cs offset line
    | .error e => ∃ done c rest ts, cs = done ++ c :: rest ∧ tokenize done offset line = .ok ts ∧
        (∀ q ∈ rules, q.2 (c :: rest) = none) ∧
        e.span = ⟨offset + bytes done, offset + bytes done + c.utf8Size⟩ := by
  refine ⟨wellFounded_behind, ?_⟩
  split
  next hts => exact tiles_of_tokenize hts
  next herror =>
    obtain ⟨done, c, rest, ts, hdone, hts, hnone, rfl⟩ := exists_of_tokenize herror
    exact ⟨done, c, rest, ts, hdone, hts, forall_rules_of_scan? hnone, rfl⟩

end Token

end Stencil
