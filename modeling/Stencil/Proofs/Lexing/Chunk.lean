import Stencil.Proofs.Lexing.Scan
import Mathlib.Data.List.Chain
import Mathlib.Data.List.Induction

/-!
Texts as tokens and blanks. A **chunk** is a token as it stands in a text, with what belongs to it
behind its own text, and `Lexes` says which chunks a text is cut into. The chunks of a text stand
**apart** (`Apart`, `Lexes.apart`): blanks are not divided, and no parenthesis that a call opens is
closed at once. They stay apart when blanks are left out, between tokens (`Apart.solid`), inside of
tokens (`Apart.tight`) and at the ends of the text (`exists_trim`).

Chunks that stand apart are cut from their text again if in addition operands do not meet, which
`follow` checks from left to right. This is `Apart.lexes`.
-/

namespace Stencil

namespace Token

open Text

/-! ### Chunks -/

/-- What a reader sees of a token. -/
def seen (t : Token) : TokenKind × String :=
  (t.kind, t.text)

/-- A token as it stands in a text, without its place. -/
structure Chunk where
  kind : TokenKind
  text : List Char
  /-- What belongs to the token behind its text. -/
  trail : List Char

namespace Chunk

/-- All that belongs to the token. -/
def whole (p : Chunk) : List Char :=
  p.text ++ p.trail

def seen (p : Chunk) : TokenKind × String :=
  (p.kind, String.ofList p.text)

/-- The chunk has been scanned from some text. -/
structure Proper (p : Chunk) : Prop where
  scanned : ∃ cs l, scan? cs = some (p.kind, l) ∧ l.text = p.text
  trails : Trails p.kind p.trail

end Chunk

/-- The text of the chunks. -/
def flat (ps : List Chunk) : List Char :=
  ps.flatMap Chunk.whole

@[simp] lemma flat_nil : flat [] = [] := rfl

@[simp] lemma flat_cons (p : Chunk) (ps : List Chunk) :
    flat (p :: ps) = p.text ++ (p.trail ++ flat ps) := by
  rw [flat, List.flatMap_cons, Chunk.whole, List.append_assoc]
  rfl

/-- **The chunks of a text.** -/
inductive Lexes : List Char → List Chunk → Prop
  | nil : Lexes [] []
  | cons {cs rest : List Char} {p : Chunk} {ps : List Chunk} :
      scan? cs = some (p.kind, ⟨p.text, p.trail, rest⟩) → Lexes rest ps → Lexes cs (p :: ps)

lemma scan?_nil : scan? [] = none := rfl

lemma tokenize_of_scan? {cs : List Char} {k : TokenKind} {l : Lexeme}
    (h : scan? cs = some (k, l)) (offset line : Nat) :
    tokenize cs offset line =
      (tokenize l.rest (offset + bytes (l.text ++ l.trail))
        (line + newlines (l.text ++ l.trail))).map
        (⟨k, String.ofList l.text, ⟨offset, offset + bytes (l.text ++ l.trail)⟩, line⟩ :: ·) := by
  cases cs with
  | nil => cases scan?_nil.symm.trans h
  | cons c cs =>
    rw [tokenize]
    split
    next hnone => cases hnone.symm.trans h
    next hsome =>
      cases hsome.symm.trans h
      dsimp only
      split
      next hrest => rw [hrest]; rfl
      next hrest => rw [hrest]; rfl

lemma Lexes.tokenize_eq {cs : List Char} {ps : List Chunk} (h : Lexes cs ps) (offset line : Nat) :
    ∃ ts, tokenize cs offset line = .ok ts ∧ ts.map seen = ps.map Chunk.seen := by
  induction h generalizing offset line with
  | nil => exact ⟨[], by rw [tokenize], rfl⟩
  | @cons cs rest p ps hscan _ ih =>
    obtain ⟨ts, hts, hseen⟩ := ih (offset + bytes p.whole) (line + newlines p.whole)
    rw [tokenize_of_scan? hscan]
    exact ⟨_, congrArg (Except.map _) hts, congrArg (_ :: ·) hseen⟩

lemma lexes_of_tokenize : ∀ {cs : List Char} {offset line : Nat} {ts : List Token},
    tokenize cs offset line = .ok ts → ∃ ps, Lexes cs ps ∧ ts.map seen = ps.map Chunk.seen
  | [], _, _, ts, h => by
    rw [tokenize] at h
    cases h
    exact ⟨[], .nil, rfl⟩
  | c :: cs, offset, line, ts, h => by
    cases hscan : scan? (c :: cs) with
    | none =>
      rw [tokenize] at h
      split at h
      next => cases h
      next hsome => cases hscan.symm.trans hsome
    | some found =>
      obtain ⟨k, l⟩ := found
      rw [tokenize_of_scan? hscan] at h
      cases hrest : tokenize l.rest (offset + bytes (l.text ++ l.trail))
          (line + newlines (l.text ++ l.trail)) with
      | error e =>
        rw [hrest] at h
        cases h
      | ok more =>
        rw [hrest] at h
        cases h
        obtain ⟨ps, hps, hseen⟩ := lexes_of_tokenize hrest
        exact ⟨⟨k, l.text, l.trail⟩ :: ps, .cons hscan hps, congrArg (_ :: ·) hseen⟩
termination_by cs => cs.length
decreasing_by exact scan?_length hscan

/-! ### Chunks that stand apart -/

/-- The chunks other than white space. -/
def solid (ps : List Chunk) : List Chunk :=
  ps.filter (·.kind ≠ .blank)

lemma solid_cons (p : Chunk) (ps : List Chunk) :
    solid (p :: ps) = if p.kind = .blank then solid ps else p :: solid ps := by
  rw [solid, List.filter_cons]
  split <;> simp_all [solid]

/-- **The chunks stand apart**: blanks are in one chunk, and what a call opens is not closed at
once. -/
structure Apart (ps : List Chunk) : Prop where
  proper : ∀ p ∈ ps, p.Proper
  blanks : ps.IsChain fun p q => p.kind = .blank → q.kind ≠ .blank
  calls : (solid ps).IsChain fun p q => p.kind = .call → q.kind ≠ .parenClose

namespace Chunk

variable {p : Chunk}

lemma Proper.blank (h : p.Proper) (hp : p.kind = .blank) :
    p.trail = [] ∧ ∀ c ∈ p.text, isBlank c = true := by
  obtain ⟨⟨cs, l, hscan, htext⟩, htrails⟩ := h
  rw [hp] at hscan htrails
  rw [← htext]
  exact ⟨htrails, (head_of_blank hscan).1⟩

lemma Proper.head (h : p.Proper) (hp : p.kind ≠ .blank) :
    ∃ c tail, p.text = c :: tail ∧ isBlank c = false := by
  obtain ⟨⟨cs, l, hscan, htext⟩, _⟩ := h
  rw [← htext]
  exact head_of_ne_blank hscan hp

lemma Proper.text_ne (h : p.Proper) : p.text ≠ [] := by
  obtain ⟨⟨cs, l, hscan, htext⟩, _⟩ := h
  rw [← htext]
  exact (scan?_cut hscan).text_ne

end Chunk

/-- The next character, blanks aside, is that of the next chunk other than white space. -/
lemma head_flat {ps : List Chunk} (h : ∀ p ∈ ps, p.Proper) :
    ((flat ps).dropWhile isBlank).head? = (solid ps).head?.bind (·.text.head?) := by
  induction ps with
  | nil => rfl
  | cons p ps ih =>
    rw [List.forall_mem_cons] at h
    rw [flat_cons, solid_cons]
    split
    next hp =>
      obtain ⟨htrail, htext⟩ := h.1.blank hp
      rw [List.dropWhile_append_of_pos htext, htrail]
      exact ih h.2
    next hp =>
      obtain ⟨c, tail, htext, hc⟩ := h.1.head hp
      simp [htext, hc]

lemma Lexes.flat_eq {cs : List Char} {ps : List Chunk} (h : Lexes cs ps) : flat ps = cs := by
  induction h with
  | nil => rfl
  | cons hscan _ ih =>
    rw [flat_cons, ih]
    exact (scan?_cut hscan).parts

/-- The chunks that a text is cut into stand apart. -/
lemma Lexes.apart {cs : List Char} {ps : List Chunk} (h : Lexes cs ps) : Apart ps := by
  induction h with
  | nil => exact ⟨by simp, .nil, .nil⟩
  | @cons cs rest p ps hscan hps ih =>
    have hproper : p.Proper := ⟨⟨cs, _, hscan, rfl⟩, trails_of_scan? hscan⟩
    refine ⟨List.forall_mem_cons.2 ⟨hproper, ih.proper⟩, ?_, ?_⟩
    -- Blanks are taken as far as they go.
    · refine List.isChain_cons.2 ⟨fun q hq hp hq' => ?_, ih.blanks⟩
      rw [hp] at hscan
      have hnext := (head_of_blank hscan).2
      obtain ⟨more, rfl⟩ := List.head?_eq_some_iff.1 hq
      have hqproper := ih.proper q List.mem_cons_self
      obtain ⟨c, tail, htext⟩ := List.exists_cons_of_ne_nil hqproper.text_ne
      have hc : isBlank c = true := (hqproper.blank hq').2 c (by simp [htext])
      rw [← hps.flat_eq, flat_cons, htext] at hnext
      cases hc.symm.trans (hnext c rfl)
    -- A call without arguments is tried before a call opener.
    · rw [solid_cons]
      split
      next => exact ih.calls
      next hblank =>
        refine List.isChain_cons.2 ⟨fun q hq hp hq' => ?_, ih.calls⟩
        rw [hp] at hscan
        have hnext := head_of_call hscan
        have hmem : q ∈ ps := List.mem_of_mem_filter (List.mem_of_mem_head? hq)
        obtain ⟨⟨_, l, hq₀, htext⟩, _⟩ := ih.proper q hmem
        rw [hq'] at hq₀
        have hclose := text_of_mark (c := ')') hq₀ (by decide)
        dsimp only at hnext
        rw [← hps.flat_eq, head_flat ih.proper, hq, Option.bind_some, ← htext, hclose] at hnext
        exact hnext ')' rfl rfl

/-! ### Operands and what stands between them -/

/-- Whether an operand is complete behind a token, if the token may come next. -/
def follow (complete : Bool) (k : TokenKind) : Option Bool :=
  match k with
  | .string | .bool | .nothing | .number | .emptyCall | .path =>
    if complete then none else some true
  | .call | .parenOpen | .curlyOpen => if complete then none else some false
  | .parenClose | .bracketClose | .curlyClose => some true
  | .bracketOpen | .comma | .colon => some false
  | .assignment => if complete then some false else none
  | .blank | .operator => none

/-- Behind an operand stands a mark that is part of no operand. -/
lemma mark_of_follow {k : TokenKind} {complete : Bool} (h : follow true k = some complete) :
    ∃ c, (k, c) ∈ marks ∧ isNamePart c = false ∧ isWord c = false ∧
      isDigit c = false ∧ c ≠ '.' ∧ c ≠ '(' := by
  cases k
  all_goals try cases h
  · exact ⟨'=', by decide⟩
  · exact ⟨')', by decide⟩
  · exact ⟨'[', by decide⟩
  · exact ⟨']', by decide⟩
  · exact ⟨'\x7d', by decide⟩
  · exact ⟨',', by decide⟩
  · exact ⟨':', by decide⟩

lemma allows_of_follow {k k' : TokenKind} {b b' b'' : Bool} (h : follow b k = some b')
    (h' : follow b' k' = some b'') (hcall : k = .call → k' ≠ .parenClose) {cs : List Char}
    {l : Lexeme} (hscan : scan? cs = some (k', l)) {c : Char} (hc : c ∈ l.text.head?) :
    Allows k c := by
  have operand (hb : b' = true) : isNamePart c = false ∧ isWord c = false ∧ isDigit c = false ∧
      c ≠ '.' ∧ c ≠ '(' := by
    rw [hb] at h'
    obtain ⟨d, hd, hmark⟩ := mark_of_follow h'
    rw [text_of_mark hscan hd] at hc
    obtain rfl := Option.some.inj hc
    exact hmark
  cases k with
  -- These could go on, but not with a mark.
  | bool | nothing | number | path =>
    have hb : b' = true := by
      rw [follow] at h
      split at h <;> cases h
      rfl
    obtain ⟨hname, hword, hdigit, hdot, hparen⟩ := operand hb
    simp [Allows, *]
  | call =>
    rintro rfl
    exact hcall rfl (kind_of_single hscan hc (by decide))
  -- A second equals sign would make an operator of both.
  | assignment =>
    rintro rfl
    have hb : b' = false := by
      rw [follow] at h
      split at h <;> cases h
      rfl
    rw [hb] at h'
    obtain rfl | rfl := kind_of_equals hscan hc
    · cases h'
    · cases h'
  | _ => trivial

lemma ne_operator_of_follow {ks : List TokenKind} {b b' : Bool}
    (h : ks.foldlM follow b = some b') : .operator ∉ ks := by
  induction ks generalizing b with
  | nil => simp
  | cons k ks ih =>
    rw [List.foldlM_cons] at h
    obtain ⟨b₁, hk, h⟩ := Option.bind_eq_some_iff.1 h
    rw [List.mem_cons, not_or]
    refine ⟨?_, ih h⟩
    rintro rfl
    cases hk

/-! ### Cut again -/

lemma Chunk.Proper.scan?_eq {p : Chunk} (h : p.Proper) (hp : p.kind ≠ .operator)
    {rest : List Char} (hrest : Separates p.kind rest) :
    scan? (p.text ++ (p.trail ++ rest)) = some (p.kind, ⟨p.text, p.trail, rest⟩) := by
  obtain ⟨⟨cs, l, hscan, htext⟩, htrails⟩ := h
  rw [← htext]
  exact scan?_again hscan hp htrails hrest

/-- Behind white space a chunk that is none ends it. -/
lemma separates_blank {ps : List Chunk} (h : ∀ p ∈ ps, p.Proper)
    (hnext : ∀ p ∈ ps.head?, p.kind ≠ .blank) : Separates .blank (flat ps) := by
  cases ps with
  | nil => simp [Separates]
  | cons q ps =>
    obtain ⟨c, tail, htext, hc⟩ := (h q List.mem_cons_self).head (hnext q rfl)
    rintro d hd
    rw [flat_cons, htext] at hd
    obtain rfl := Option.some.inj hd
    exact hc

/-- Behind any other token the next chunk ends it. -/
lemma separates_of_follow {ps : List Chunk} {k : TokenKind} {b b₁ b' : Bool} (hk : k ≠ .blank)
    (h : ∀ p ∈ ps, p.Proper) (hcall : ∀ p ∈ (solid ps).head?, k = .call → p.kind ≠ .parenClose)
    (hfollow : follow b k = some b₁)
    (hrest : ((solid ps).map (·.kind)).foldlM follow b₁ = some b') : Separates k (flat ps) := by
  have hallows : ∀ c ∈ ((flat ps).dropWhile isBlank).head?, Allows k c := by
    intro c hc
    rw [head_flat h] at hc
    obtain ⟨q, hq, hc⟩ := Option.bind_eq_some_iff.1 hc
    obtain ⟨more, hmore⟩ := List.head?_eq_some_iff.1 hq
    rw [hmore, List.map_cons, List.foldlM_cons] at hrest
    obtain ⟨b₂, hb₂, _⟩ := Option.bind_eq_some_iff.1 hrest
    obtain ⟨⟨_, l, hscan, htext⟩, _⟩ := h q (List.mem_of_mem_filter (List.mem_of_mem_head? hq))
    rw [← htext] at hc
    exact allows_of_follow hfollow hb₂ (hcall q hq) hscan hc
  cases k with
  | blank => exact absurd rfl hk
  | _ => exact hallows

/-- **Chunks that stand apart are cut again** if no two operands meet. -/
lemma Apart.lexes {ps : List Chunk} (h : Apart ps) {b b' : Bool}
    (hfollow : ((solid ps).map (·.kind)).foldlM follow b = some b') : Lexes (flat ps) ps := by
  -- On the chunks: what the first one needs of the text behind it is known from the next chunk.
  induction ps generalizing b with
  | nil => exact .nil
  | cons p ps ih =>
    obtain ⟨hproper, hblanks, hcalls⟩ := h
    rw [List.forall_mem_cons] at hproper
    rw [List.isChain_cons] at hblanks
    rw [solid_cons] at hcalls hfollow
    rw [flat_cons]
    split at hfollow
    next hp =>
      rw [if_pos hp] at hcalls
      have hrest : Separates p.kind (flat ps) := by
        rw [hp]
        exact separates_blank hproper.2 fun q hq => hblanks.1 q hq hp
      exact .cons (hproper.1.scan?_eq (by simp [hp]) hrest)
        (ih ⟨hproper.2, hblanks.2, hcalls⟩ hfollow)
    next hp =>
      rw [if_neg hp, List.isChain_cons] at hcalls
      have hoperator := ne_operator_of_follow hfollow
      rw [List.map_cons, List.mem_cons, not_or] at hoperator
      rw [List.map_cons, List.foldlM_cons] at hfollow
      obtain ⟨b₁, hb₁, hfollow⟩ := Option.bind_eq_some_iff.1 hfollow
      have hrest := separates_of_follow hp hproper.2 hcalls.1 hb₁ hfollow
      exact .cons (hproper.1.scan?_eq (Ne.symm hoperator.1) hrest)
        (ih ⟨hproper.2, hblanks.2, hcalls.2⟩ hfollow)

/-! ### Chunks left out -/

lemma solid_append (ps qs : List Chunk) : solid (ps ++ qs) = solid ps ++ solid qs :=
  List.filter_append ps qs

lemma Apart.part {ps qs : List Chunk} (h : Apart ps) (hqs : qs <:+: ps) : Apart qs where
  proper p hp := h.proper p (hqs.subset hp)
  blanks := List.IsChain.infix h.blanks hqs
  calls := List.IsChain.infix h.calls (hqs.filter _)

lemma solid_solid (ps : List Chunk) : solid (solid ps) = solid ps := by
  simp [solid]

/-- Without white space the chunks still stand apart. -/
lemma Apart.solid {ps : List Chunk} (h : Apart ps) : Apart (solid ps) where
  proper p hp := h.proper p (List.mem_of_mem_filter hp)
  blanks := by
    refine List.isChain_iff_forall_rel_of_append_cons_cons.2 fun p q before after hps _ => ?_
    have hq : q ∈ Token.solid ps := by simp [hps]
    simpa using (List.mem_filter.1 hq).2
  calls := by
    rw [solid_solid]
    exact h.calls

/-- What is written behind a token if nothing is left between the parentheses of a call. -/
def closing : TokenKind → List Char
  | .call => ['(']
  | .emptyCall => ['(', ')']
  | _ => []

/-- The chunk with the blanks left out that belong to it. -/
def Chunk.tight (p : Chunk) : Chunk :=
  { p with trail := closing p.kind }

lemma trails_closing (k : TokenKind) : Trails k (closing k) := by
  cases k with
  | call => exact ⟨[], by simp, rfl⟩
  | emptyCall => exact ⟨[], [], by simp, by simp, rfl⟩
  | _ => rfl

lemma solid_tight (ps : List Chunk) : solid (ps.map Chunk.tight) = (solid ps).map Chunk.tight :=
  List.filter_map

/-- Blanks inside of chunks can be left out. -/
lemma Apart.tight {ps : List Chunk} (h : Apart ps) : Apart (ps.map Chunk.tight) where
  proper p hp := by
    obtain ⟨q, hq, rfl⟩ := List.mem_map.1 hp
    exact ⟨(h.proper q hq).scanned, trails_closing q.kind⟩
  blanks := (List.isChain_map Chunk.tight).2 h.blanks
  calls := by
    rw [solid_tight]
    exact (List.isChain_map Chunk.tight).2 h.calls

/-- The text of tokens is that of the chunks without the blanks that belong to them. -/
lemma toList_sources {ts : List Token} {ps : List Chunk} (h : ts.map seen = ps.map Chunk.seen) :
    (sources ts).toList = flat (ps.map Chunk.tight) := by
  have hsource (t : Token) : t.source.toList = t.text.toList ++ closing t.kind := by
    rw [source]
    split <;> simp [closing, *]
  have hchunks : flat (ps.map Chunk.tight) =
      (ps.map Chunk.seen).flatMap fun x => x.2.toList ++ closing x.1 := by
    simp [flat, Chunk.whole, Chunk.tight, Chunk.seen, List.flatMap_map]
  have htokens : (sources ts).toList =
      (ts.map seen).flatMap fun x => x.2.toList ++ closing x.1 := by
    simp [sources, String.toList_join, List.flatMap_map, hsource, seen]
  rw [htokens, hchunks, h]

lemma significant_seen {ts : List Token} {ps : List Chunk} (h : ts.map seen = ps.map Chunk.seen) :
    (significant ts).map seen = (solid ps).map Chunk.seen := by
  have htokens : (ts.map seen).filter (·.1 ≠ .blank) = (significant ts).map seen :=
    List.filter_map
  have hchunks : (ps.map Chunk.seen).filter (·.1 ≠ .blank) = (solid ps).map Chunk.seen :=
    List.filter_map
  rw [← htokens, ← hchunks, h]

lemma exists_trimStart {ps : List Chunk} (h : ∀ p ∈ ps, p.Proper) :
    ∃ qs, qs <:+ ps ∧ solid qs = solid ps ∧ trimStart (flat ps) = flat qs := by
  induction ps with
  | nil => exact ⟨[], List.suffix_rfl, rfl, rfl⟩
  | cons p ps ih =>
    rw [List.forall_mem_cons] at h
    by_cases hp : p.kind = .blank
    · obtain ⟨qs, hqs, hsolid, htrim⟩ := ih h.2
      obtain ⟨htrail, htext⟩ := h.1.blank hp
      refine ⟨qs, hqs.trans (List.suffix_cons p ps), ?_, ?_⟩
      · rw [solid_cons, if_pos hp, hsolid]
      · rw [← htrim, flat_cons, htrail, trimStart, List.dropWhile_append_of_pos htext]
        rfl
    · obtain ⟨c, tail, htext, hc⟩ := h.1.head hp
      refine ⟨p :: ps, List.suffix_rfl, rfl, ?_⟩
      simp [trimStart, htext, hc]

lemma exists_trimEnd {ps : List Chunk} (h : ∀ p ∈ ps, p.Proper)
    (hop : ∀ p ∈ ps, p.kind ≠ .operator) :
    ∃ qs, qs <+: ps ∧ solid qs = solid ps ∧ (trimStart (flat ps).reverse).reverse = flat qs := by
  induction ps using List.reverseRecOn with
  | nil => exact ⟨[], List.prefix_rfl, rfl, rfl⟩
  | append_singleton ps p ih =>
    rw [List.forall_mem_append, List.forall_mem_singleton] at h hop
    have hflat : flat (ps ++ [p]) = flat ps ++ p.whole := by simp [flat]
    rw [hflat, solid_append, solid_cons]
    by_cases hp : p.kind = .blank
    · obtain ⟨qs, hqs, hsolid, htrim⟩ := ih h.1 hop.1
      obtain ⟨htrail, htext⟩ := h.2.blank hp
      have hblank : ∀ c ∈ p.whole.reverse, isBlank c = true := by
        simpa [Chunk.whole, htrail] using htext
      refine ⟨qs, hqs.trans (List.prefix_append ps [p]), ?_, ?_⟩
      · rw [if_pos hp, hsolid]
        exact (List.append_nil _).symm
      · rw [← htrim, List.reverse_append, trimStart, List.dropWhile_append_of_pos hblank, trimStart]
    · obtain ⟨⟨cs, l, hscan, htext⟩, htrails⟩ := h.2
      obtain ⟨before, c, hlast, hc⟩ := last_of_ne_blank hscan hp hop.2 htrails
      rw [htext] at hlast
      refine ⟨ps ++ [p], List.prefix_rfl, ?_, ?_⟩
      · rw [solid_append, solid_cons]
      · rw [hflat, Chunk.whole, hlast]
        simp [trimStart, hc]

/-- Blanks at either end can be left out. -/
lemma exists_trim {ps : List Chunk} (h : ∀ p ∈ ps, p.Proper)
    (hop : ∀ p ∈ ps, p.kind ≠ .operator) :
    ∃ qs, qs <:+: ps ∧ solid qs = solid ps ∧ trim (flat ps) = flat qs := by
  obtain ⟨qs, hqs, hsolid, hstart⟩ := exists_trimStart h
  obtain ⟨rs, hrs, hsolid', hend⟩ := exists_trimEnd (fun p hp => h p (hqs.subset hp))
    fun p hp => hop p (hqs.subset hp)
  refine ⟨rs, hrs.isInfix.trans hqs.isInfix, hsolid'.trans hsolid, ?_⟩
  rw [trim, hstart, hend]

end Token

end Stencil
