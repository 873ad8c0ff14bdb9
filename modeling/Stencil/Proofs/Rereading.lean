import Stencil.Proofs.Lexing.Chunk
import Stencil.Proofs.Grammar.Expression

/-!
Reading an expression from its text again. Of a token the grammar of expressions sees its kind and
its text alone (`Expr.Derives.alike`), and in what it derives no two operands meet
(`Expr.Derives.follow`). So the text of chunks that stand apart **reads back** as the expression
that has been read from their tokens (`Expr.readBack_of_apart`), whichever blanks have been left
out.
-/

namespace Stencil

/-! ### Tokens that look the same -/

namespace Token

/-- The tokens look the same. -/
def Alike (us vs : List Token) : Prop :=
  us.map seen = vs.map seen

lemma Alike.nil {ws : List Token} (h : Alike [] ws) : ws = [] :=
  List.map_eq_nil_iff.1 h.symm

lemma Alike.cons {t : Token} {us ws : List Token} (h : Alike (t :: us) ws) :
    ∃ t' us', ws = t' :: us' ∧ t'.kind = t.kind ∧ t'.text = t.text ∧ Alike us us' := by
  obtain ⟨t', us', rfl, ht, hus⟩ := List.map_eq_cons_iff.1 h.symm
  exact ⟨t', us', rfl, congrArg Prod.fst ht, congrArg Prod.snd ht, hus.symm⟩

lemma Alike.append {us vs ws : List Token} (h : Alike (us ++ vs) ws) :
    ∃ us' vs', ws = us' ++ vs' ∧ Alike us us' ∧ Alike vs vs' := by
  rw [Alike, List.map_append] at h
  obtain ⟨us', vs', rfl, hus, hvs⟩ := List.map_eq_append_iff.1 h.symm
  exact ⟨us', vs', rfl, hus.symm, hvs.symm⟩

lemma Alike.singleton {t : Token} {ws : List Token} (h : Alike [t] ws) :
    ∃ t', ws = [t'] ∧ t'.kind = t.kind ∧ t'.text = t.text := by
  obtain ⟨t', us', rfl, hkind, htext, hus⟩ := h.cons
  obtain rfl := hus.nil
  exact ⟨t', rfl, hkind, htext⟩

lemma Alike.separated {c : Token} {us vs ws : List Token} (h : Alike (us ++ c :: vs) ws) :
    ∃ us' c' vs', ws = us' ++ c' :: vs' ∧ Alike us us' ∧ c'.kind = c.kind ∧ Alike vs vs' := by
  obtain ⟨us', ws, rfl, hus, hws⟩ := h.append
  obtain ⟨c', vs', rfl, hc, _, hvs⟩ := hws.cons
  exact ⟨us', c', vs', rfl, hus, hc, hvs⟩

lemma Alike.bracketed {o c : Token} {us ws : List Token} (h : Alike (o :: (us ++ [c])) ws) :
    ∃ o' us' c', ws = o' :: (us' ++ [c']) ∧ o'.kind = o.kind ∧ o'.text = o.text ∧
      Alike us us' ∧ c'.kind = c.kind := by
  obtain ⟨o', ws, rfl, ho, htext, hws⟩ := h.cons
  obtain ⟨us', c', vs', rfl, hus, hc, hvs⟩ := hws.separated
  obtain rfl := hvs.nil
  exact ⟨o', us', c', rfl, ho, htext, hus, hc⟩

lemma isPlain_congr {t t' : Token} (h : t'.text = t.text) : t'.isPlain = t.isPlain := by
  rw [isPlain, isPlain, h]

end Token

open Token

namespace Expr

lemma Key.alike {k k' : Token} {name : String} (h : Key k name) (hkind : k'.kind = k.kind)
    (htext : k'.text = k.text) : Key k' name := by
  cases h with
  | string hk =>
    rw [← htext]
    exact .string (hkind.trans hk)
  | name hk hplain =>
    rw [← htext]
    exact .name (hkind.trans hk) ((isPlain_congr htext).trans hplain)

/-- The grammar derives the same for tokens that look the same. -/
lemma Derives.alike {us vs : List Token} {φ : Phrase} (h : Derives us φ) (hvs : Alike us vs) :
    Derives vs φ := by
  induction h generalizing vs with
  | expr _ _ ih ih' =>
    obtain ⟨us', vs', rfl, hus, hvs⟩ := hvs.append
    exact .expr (ih hus) (ih' hvs)
  | noIndex e =>
    obtain rfl := hvs.nil
    exact .noIndex e
  | index ho _ hc _ ih ih' =>
    obtain ⟨o', ws, rfl, ho', _, hws⟩ := hvs.cons
    obtain ⟨us', c', vs', rfl, hus, hc', hvs'⟩ := hws.separated
    exact .index (ho'.trans ho) (ih hus) (hc'.trans hc) (ih' hvs')
  | string hk =>
    obtain ⟨t', rfl, hkind, htext⟩ := hvs.singleton
    rw [← htext]
    exact .string (hkind.trans hk)
  | number hk hn =>
    obtain ⟨t', rfl, hkind, htext⟩ := hvs.singleton
    exact .number (hkind.trans hk) (htext ▸ hn)
  | bool hk =>
    obtain ⟨t', rfl, hkind, htext⟩ := hvs.singleton
    rw [← htext]
    exact .bool (hkind.trans hk)
  | nothing hk =>
    obtain ⟨t', rfl, hkind, _⟩ := hvs.singleton
    exact .nothing (hkind.trans hk)
  | path hk hn =>
    obtain ⟨t', rfl, hkind, htext⟩ := hvs.singleton
    exact .path (hkind.trans hk) (htext ▸ hn)
  | emptyCall hk hn =>
    obtain ⟨t', rfl, hkind, htext⟩ := hvs.singleton
    exact .emptyCall (hkind.trans hk) (htext ▸ hn)
  | call ho hn _ hc ih =>
    obtain ⟨o', us', c', rfl, ho', htext, hus, hc'⟩ := hvs.bracketed
    exact .call (ho'.trans ho) (htext ▸ hn) (ih hus) (hc'.trans hc)
  | list ho _ hc ih =>
    obtain ⟨o', us', c', rfl, ho', _, hus, hc'⟩ := hvs.bracketed
    exact .list (ho'.trans ho) (ih hus) (hc'.trans hc)
  | map ho _ hc ih =>
    obtain ⟨o', us', c', rfl, ho', _, hus, hc'⟩ := hvs.bracketed
    exact .map (ho'.trans ho) (ih hus) (hc'.trans hc)
  | paren ho _ hc ih =>
    obtain ⟨o', us', c', rfl, ho', _, hus, hc'⟩ := hvs.bracketed
    exact .paren (ho'.trans ho) (ih hus) (hc'.trans hc)
  | noItem =>
    obtain rfl := hvs.nil
    exact .noItem
  | lastItem _ ih => exact .lastItem (ih hvs)
  | item _ hc _ ih ih' =>
    obtain ⟨us', c', vs', rfl, hus, hc', hvs'⟩ := hvs.separated
    exact .item (ih hus) (hc'.trans hc) (ih' hvs')
  | noEntry =>
    obtain rfl := hvs.nil
    exact .noEntry
  | lastEntry hk ha _ ih =>
    obtain ⟨k', ws, rfl, hkind, htext, hws⟩ := hvs.cons
    obtain ⟨a', us', rfl, ha', _, hus⟩ := hws.cons
    exact .lastEntry (hk.alike hkind htext) (ha'.trans ha) (ih hus)
  | entry hk ha _ hc _ ih ih' =>
    obtain ⟨k', ws, rfl, hkind, htext, hws⟩ := hvs.cons
    obtain ⟨a', ws', rfl, ha', _, hws'⟩ := hws.cons
    obtain ⟨us', c', vs', rfl, hus, hc', hvs'⟩ := hws'.separated
    exact .entry (hk.alike hkind htext) (ha'.trans ha) (ih hus) (hc'.trans hc) (ih' hvs')
  | noArgument =>
    obtain rfl := hvs.nil
    exact .noArgument
  | arguments _ ih => exact .arguments (ih hvs)
  | lastPositional _ ih => exact .lastPositional (ih hvs)
  | positional _ hc _ ih ih' =>
    obtain ⟨us', c', vs', rfl, hus, hc', hvs'⟩ := hvs.separated
    exact .positional (ih hus) (hc'.trans hc) (ih' hvs')
  | keywords _ ih => exact .keywords (ih hvs)
  | lastKeyword hk hplain ha _ ih =>
    obtain ⟨k', ws, rfl, hkind, htext, hws⟩ := hvs.cons
    obtain ⟨a', us', rfl, ha', _, hus⟩ := hws.cons
    rw [← htext]
    exact .lastKeyword (hkind.trans hk) ((isPlain_congr htext).trans hplain) (ha'.trans ha) (ih hus)
  | keyword hk hplain ha _ hc _ ih ih' =>
    obtain ⟨k', ws, rfl, hkind, htext, hws⟩ := hvs.cons
    obtain ⟨a', ws', rfl, ha', _, hws'⟩ := hws.cons
    obtain ⟨us', c', vs', rfl, hus, hc', hvs'⟩ := hws'.separated
    rw [← htext]
    exact .keyword (hkind.trans hk) ((isPlain_congr htext).trans hplain) (ha'.trans ha) (ih hus)
      (hc'.trans hc) (ih' hvs')

/-! ### Operands do not meet -/

/-- The tokens of the phrase follow each other. -/
def Follow (us : List Token) : Phrase → Prop
  | .expr _ | .operand _ | .someArguments _ _ | .keywords _ =>
    (us.map (·.kind)).foldlM follow false = some true
  | .indexes _ _ => (us.map (·.kind)).foldlM follow true = some true
  | .items _ | .entries _ | .arguments _ _ =>
    ∃ complete, (us.map (·.kind)).foldlM follow false = some complete

/-- Behind the key of an entry an operand is complete. -/
lemma Key.follow_eq {k : Token} {name : String} (h : Key k name) :
    follow false k.kind = some true := by
  cases h with
  | string hkind | name hkind => simp [Token.follow, hkind]

/-- Operands stand apart in what the grammar derives. -/
lemma Derives.follow {us : List Token} {φ : Phrase} (h : Derives us φ) : Follow us φ := by
  induction h with
  | noIndex => rfl
  | noItem | noEntry | noArgument => exact ⟨false, rfl⟩
  | string hkind | number hkind | bool hkind | nothing hkind | path hkind | emptyCall hkind =>
    simp [Follow, Token.follow, hkind]
  | expr _ _ ih ih' =>
    simp only [Follow] at ih ih' ⊢
    simp [ih, ih']
  | index ho _ hc _ ih ih' =>
    simp only [Follow] at ih ih' ⊢
    simp [Token.follow, ho, hc, ih, ih']
  | call ho _ _ hc ih | list ho _ hc ih | map ho _ hc ih =>
    obtain ⟨complete, ih⟩ := ih
    simp [Follow, Token.follow, ho, hc, ih]
  | paren ho _ hc ih =>
    simp only [Follow] at ih ⊢
    simp [Token.follow, ho, hc, ih]
  | lastItem _ ih => exact ⟨true, ih⟩
  | arguments _ ih => exact ⟨true, ih⟩
  | lastPositional _ ih | keywords _ ih => exact ih
  | item _ hc _ ih ih' =>
    obtain ⟨complete, ih'⟩ := ih'
    simp only [Follow] at ih ⊢
    exact ⟨complete, by simp [Token.follow, hc, ih, ih']⟩
  | positional _ hc _ ih ih' =>
    simp only [Follow] at ih ih' ⊢
    simp [Token.follow, hc, ih, ih']
  | lastEntry hk ha _ ih =>
    simp only [Follow] at ih ⊢
    refine ⟨true, ?_⟩
    rw [List.map_cons, List.foldlM_cons, hk.follow_eq]
    simp [Token.follow, ha, ih]
  | entry hk ha _ hc _ ih ih' =>
    obtain ⟨complete, ih'⟩ := ih'
    simp only [Follow] at ih ⊢
    refine ⟨complete, ?_⟩
    rw [List.map_cons, List.foldlM_cons, hk.follow_eq]
    simp [Token.follow, ha, hc, ih, ih']
  | lastKeyword hk _ ha _ ih =>
    simp only [Follow] at ih ⊢
    simp [Token.follow, hk, ha, ih]
  | keyword hk _ ha _ hc _ ih ih' =>
    simp only [Follow] at ih ih' ⊢
    simp [Token.follow, hk, ha, hc, ih, ih']

/-! ### Read back -/

/-- **The text reads back as the expression**: wherever it stands, it can be cut into tokens, and
they are read as the expression. -/
def ReadBack (text : String) (e : Expr) : Prop :=
  ∀ offset line, ∃ ts, tokenize text.toList offset line = .ok ts ∧ ofTokens ts = .ok e

section Chunks

variable {ts : List Token} {ps : List Chunk} {e : Expr}

lemma follow_of_ofTokens (h : ofTokens ts = .ok e)
    (hseen : (significant ts).map seen = (solid ps).map Chunk.seen) :
    ((solid ps).map (·.kind)).foldlM follow false = some true := by
  have hkinds : (solid ps).map (·.kind) = (significant ts).map (·.kind) := by
    have hfst := congrArg (List.map Prod.fst) hseen
    rw [List.map_map, List.map_map] at hfst
    exact hfst.symm
  rw [hkinds]
  exact (derives_of_ofTokens h).follow

/-- Chunks that stand apart read back as what has been read from their tokens. -/
lemma readBack_of_apart (hps : Apart ps) (h : ofTokens ts = .ok e)
    (hseen : (significant ts).map seen = (solid ps).map Chunk.seen) :
    ReadBack (String.ofList (flat ps)) e := by
  intro offset line
  obtain ⟨us, hus, hchunks⟩ := (hps.lexes (follow_of_ofTokens h hseen)).tokenize_eq offset line
  rw [String.toList_ofList]
  exact ⟨us, hus, ((derives_of_ofTokens h).alike
    (hseen.trans (significant_seen hchunks).symm)).ofTokens_eq⟩

/-- So they do without the blanks at either end. -/
lemma readBack_trim (hps : Apart ps) (h : ofTokens ts = .ok e)
    (hseen : (significant ts).map seen = (solid ps).map Chunk.seen) :
    ReadBack (String.ofList (Text.trim (flat ps))) e := by
  have hop : ∀ p ∈ ps, p.kind ≠ .operator := by
    intro p hp hkind
    have hmem : p ∈ solid ps := List.mem_filter.2 ⟨hp, by simp [hkind]⟩
    exact ne_operator_of_follow (follow_of_ofTokens h hseen)
      (hkind ▸ List.mem_map_of_mem hmem)
  obtain ⟨qs, hqs, hsolid, htrim⟩ := exists_trim hps.proper hop
  rw [htrim]
  exact readBack_of_apart (hps.part hqs) h (hsolid ▸ hseen)

end Chunks

end Expr

end Stencil
