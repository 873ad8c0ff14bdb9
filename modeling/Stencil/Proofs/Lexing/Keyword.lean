import Stencil.Proofs.Script.Identifier
import Stencil.Proofs.Lexing.Tiling

/-!
Identifiers as tokens. The words that are tokens of their own are tried before names, and one of
them ends where no word character follows. Identifiers go on with dollar signs as well, which are
no word characters: an identifier is **cut** (`Cut`) if it starts with a word and either ends there
or goes on with a dollar sign.

`identifiers_whole` says that these are the only ones. All other identifiers are one token, or open
a call if a parenthesis follows; from one that is cut the word is taken, and what is left is an
identifier that is not cut again.
-/

namespace Stencil

namespace Token

open Text

/-! ### Identifiers that are cut -/

/-- A word is taken from the front of the name, and the rest is left. -/
structure Cut (name : String) (k : TokenKind) (w : String) (rest : List Char) : Prop where
  word : (k, w) ∈ words
  parts : name.toList = w.toList ++ rest
  dollar : ∀ c ∈ rest.head?, c = '$'

/-- **The names that are cut.** -/
def IsCut (name : String) : Prop :=
  ∃ k w rest, Cut name k w rest

section Names

variable {name : String} {k : TokenKind} {w : String} {rest more : List Char}

lemma newlines_of_forall_isNamePart {cs : List Char} (h : ∀ c ∈ cs, isNamePart c = true) :
    newlines cs = 0 :=
  List.count_eq_zero.2 fun hmem => absurd (h '\n' hmem) (by decide)

lemma pathTail_of_forall {cs : List Char} (h : ∀ c ∈ cs, isNamePart c = true) :
    pathTail cs = (cs, []) := by
  induction cs with
  | nil => rfl
  | cons c cs ih =>
    rw [List.forall_mem_cons] at h
    rw [pathTail_cons h.1, ih h.2]

lemma path_of_isIdentifier (h : IsIdentifier name) :
    path name.toList = some ⟨name.toList, [], []⟩ := by
  obtain ⟨c, cs, hname, hc, hcs⟩ := h
  rw [hname, path, if_pos hc, pathTail_of_forall hcs]

lemma Cut.head_isWord (h : Cut name k w rest) : ∀ c ∈ rest.head?, isWord c = false := by
  intro c hc
  rw [h.dollar c hc]
  decide

lemma Cut.isIdentifier (h : Cut name k w rest) (hname : IsIdentifier name) (hrest : rest ≠ []) :
    IsIdentifier (String.ofList rest) := by
  obtain ⟨c, cs, rfl⟩ := List.exists_cons_of_ne_nil hrest
  obtain rfl := h.dollar c rfl
  refine ⟨'$', cs, String.toList_ofList, by decide, fun d hd => ?_⟩
  refine hname.forall_isNamePart d ?_
  rw [h.parts]
  exact List.mem_append_right _ (List.mem_cons_of_mem _ hd)

/-- No word starts with a dollar sign. -/
lemma Cut.not_isCut (h : Cut name k w rest) : ¬ IsCut (String.ofList rest) := by
  rintro ⟨k', w', rest', h'⟩
  have hhead : ∀ p ∈ words, p.2.toList ≠ [] ∧ p.2.toList.head? ≠ some '$' := by decide
  obtain ⟨hne, hdollar⟩ := hhead _ h'.word
  obtain ⟨d, ds, hword⟩ := List.exists_cons_of_ne_nil hne
  have hparts := h'.parts
  rw [String.toList_ofList, hword, List.cons_append] at hparts
  refine hdollar ?_
  rw [hword, List.head?_cons, h.dollar d (by rw [hparts]; rfl)]

/-- The word is scanned from the front of the name, also if more text follows. -/
lemma Cut.scan?_eq (h : Cut name k w rest) (hmore : ∀ c ∈ more.head?, isWord c = false) :
    scan? (name.toList ++ more) = some (k, ⟨w.toList, [], rest ++ more⟩) := by
  rw [h.parts, List.append_assoc]
  refine scan?_word ?_ h.word
  have hfront := h.head_isWord
  cases rest with
  | nil => exact hmore
  | cons c cs => exact hfront

/-- Before names nothing is scanned from an identifier that is not cut. -/
lemma early_of_not_isCut (h : IsIdentifier name) (hcut : ¬ IsCut name) :
    ∀ q ∈ rules.take 5, q.2 name.toList = none := by
  have hname := h.forall_isNamePart
  obtain ⟨c, cs, hfront, hc, _⟩ := h
  rw [hfront, early_iff hc, ← hfront]
  intro p hp
  rw [← List.append_nil name.toList,
    word_append_eq_none_iff (isNamePart_of_mem_words hp) (by simp)]
  rintro ⟨⟨rest, hrest⟩, hnext⟩
  rw [← hrest, List.drop_left] at hnext
  refine hcut ⟨p.1, p.2, rest, hp, hrest.symm, fun d hd => ?_⟩
  -- A part of a name is a dollar sign if it is no word character.
  have hpart : isNamePart d = true := hname d (by
    rw [← hrest]
    exact List.mem_append_right _ (List.mem_of_mem_head? hd))
  simpa [isNamePart, hnext d hd] using hpart

/-! ### Tokens -/

lemma kind_of_tokenize {cs : List Char} {l : Lexeme} (h : scan? cs = some (k, l))
    {offset line : Nat} {t : Token} {ts : List Token}
    (ht : tokenize cs offset line = .ok (t :: ts)) : t.kind = k := by
  rw [tokenize_of_scan? h] at ht
  rw [(of_map_cons_eq_ok ht).1]

/-- Where an identifier is cut, the first token is the word. -/
lemma Cut.kind_eq (h : Cut name k w rest) (hmore : ∀ c ∈ more.head?, isWord c = false)
    {offset line : Nat} {t : Token} {ts : List Token}
    (ht : tokenize (name.toList ++ more) offset line = .ok (t :: ts)) :
    t.kind = .bool ∨ t.kind = .nothing := by
  rw [kind_of_tokenize (h.scan?_eq hmore) ht]
  exact kind_of_mem_words h.word

lemma Cut.tokenize_eq (h : Cut name k w rest) (hmore : ∀ c ∈ more.head?, isWord c = false)
    (offset line : Nat) :
    tokenize (name.toList ++ more) offset line =
      (tokenize (rest ++ more) (offset + bytes w.toList) line).map
        (⟨k, w, ⟨offset, offset + bytes w.toList⟩, line⟩ :: ·) := by
  rw [tokenize_of_scan? (h.scan?_eq hmore)]
  simp only [List.append_nil, String.ofList_toList, Nat.add_zero,
    newlines_of_forall_isNamePart (isNamePart_of_mem_words h.word)]

lemma tokenize_path (h : IsIdentifier name) (hcut : ¬ IsCut name) (offset line : Nat) :
    tokenize name.toList offset line =
      .ok [⟨.path, name, ⟨offset, offset + bytes name.toList⟩, line⟩] := by
  have hnil : ∀ c ∈ (([] : List Char).dropWhile isBlank).head?, Allows .path c := by simp
  have hscan := scan?_path (path_of_isIdentifier h) (early_of_not_isCut h hcut) hnil
  rw [List.append_nil] at hscan
  rw [tokenize_of_scan? hscan, tokenize_nil]
  simp only [List.append_nil, String.ofList_toList]
  rfl

lemma tokenize_call (h : IsIdentifier name) (hcut : ¬ IsCut name)
    (hmore : ∀ c ∈ (more.dropWhile isBlank).head?, c ≠ ')') (offset line : Nat) :
    tokenize (name.toList ++ '(' :: more) offset line =
      (tokenize more (offset + bytes name.toList + 1) line).map
        (⟨.call, name, ⟨offset, offset + bytes name.toList + 1⟩, line⟩ :: ·) := by
  have hbytes : bytes (name.toList ++ ['(']) = bytes name.toList + 1 := bytes_append _ _
  have hlines : newlines (name.toList ++ ['(']) = 0 := by
    rw [newlines_append, newlines_of_forall_isNamePart h.forall_isNamePart]
    rfl
  have hscan := scan?_call (path_of_isIdentifier h) (early_of_not_isCut h hcut)
    (List.forall_mem_nil _) hmore
  rw [List.nil_append, List.nil_append] at hscan
  rw [tokenize_of_scan? hscan]
  simp only [hbytes, hlines, String.ofList_toList, Nat.add_zero, ← Nat.add_assoc]

/-- **Identifiers are single tokens, unless they are cut.** An identifier is one token exactly if
it is not cut, and exactly then a parenthesis behind it, which is not closed at once, makes it open
a call. From an identifier that is cut the word is taken, whatever follows that is no word
character; what is left is tokenized by itself, and is an identifier that is not cut again. -/
theorem identifiers_whole (h : IsIdentifier name) (offset line : Nat) :
    (tokenize name.toList offset line =
        .ok [⟨.path, name, ⟨offset, offset + bytes name.toList⟩, line⟩] ↔ ¬ IsCut name) ∧
    (∀ more ts, (∀ c ∈ (more.dropWhile isBlank).head?, c ≠ ')') →
      (tokenize (name.toList ++ '(' :: more) offset line =
          .ok (⟨.call, name, ⟨offset, offset + bytes name.toList + 1⟩, line⟩ :: ts) ↔
        ¬ IsCut name ∧ tokenize more (offset + bytes name.toList + 1) line = .ok ts)) ∧
    ∀ k w rest, Cut name k w rest →
      (∀ more, (∀ c ∈ more.head?, isWord c = false) →
        tokenize (name.toList ++ more) offset line =
          (tokenize (rest ++ more) (offset + bytes w.toList) line).map
            (⟨k, w, ⟨offset, offset + bytes w.toList⟩, line⟩ :: ·)) ∧
      (rest ≠ [] → IsIdentifier (String.ofList rest) ∧ ¬ IsCut (String.ofList rest)) := by
  refine ⟨⟨?_, fun hcut => tokenize_path h hcut offset line⟩, fun more ts hmore => ⟨?_, ?_⟩,
    fun k w rest hcut => ⟨fun more hmore => hcut.tokenize_eq hmore offset line, fun hrest =>
      ⟨hcut.isIdentifier h hrest, hcut.not_isCut⟩⟩⟩
  · rintro htokens ⟨k, w, rest, hcut⟩
    rw [← List.append_nil name.toList] at htokens
    obtain hkind | hkind := hcut.kind_eq (by simp) htokens <;> cases hkind
  · intro htokens
    have hcut : ¬ IsCut name := by
      rintro ⟨k, w, rest, hcut⟩
      have hparen : ∀ c ∈ ('(' :: more).head?, isWord c = false := by
        rintro c hc
        obtain rfl := Option.some.inj hc
        decide
      obtain hkind | hkind := hcut.kind_eq hparen htokens <;> cases hkind
    rw [tokenize_call h hcut hmore] at htokens
    exact ⟨hcut, (of_map_cons_eq_ok htokens).2⟩
  · rintro ⟨hcut, hts⟩
    rw [tokenize_call h hcut hmore, hts]
    rfl

/-- A word at the front that goes on is not cut off. -/
theorem nonesuch_whole : IsIdentifier "nonesuch" ∧ ¬ IsCut "nonesuch" ∧
    tokenize "nonesuch(1)".toList 0 1 = .ok [⟨.call, "nonesuch", ⟨0, 9⟩, 1⟩,
      ⟨.number, "1", ⟨9, 10⟩, 1⟩, ⟨.parenClose, ")", ⟨10, 11⟩, 1⟩] := by
  have hname : IsIdentifier "nonesuch" :=
    ⟨'n', "onesuch".toList, rfl, by decide, List.all_eq_true.1 (by decide)⟩
  obtain ⟨hpath, hcall, _⟩ := identifiers_whole hname 0 1
  have hcut : ¬ IsCut "nonesuch" := hpath.1 (by decide +kernel)
  exact ⟨hname, hcut, (hcall "1)".toList _ (by rintro c ⟨⟩; decide)).2 ⟨hcut, by decide +kernel⟩⟩

/-- A dollar sign goes on with an identifier, but a word ends before it. -/
theorem dollar_ends_word : IsIdentifier "true$x" ∧ "true$x" ∉ words.map Prod.snd ∧
    tokenize "true$x".toList 0 1 =
      .ok [⟨.bool, "true", ⟨0, 4⟩, 1⟩, ⟨.path, "$x", ⟨4, 6⟩, 1⟩] :=
  ⟨⟨'t', "rue$x".toList, rfl, by decide, List.all_eq_true.1 (by decide)⟩, by decide,
    by decide +kernel⟩

end Names

end Token

end Stencil
