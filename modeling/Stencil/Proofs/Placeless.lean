import Stencil.Proofs.Grammar.Signature
import Stencil.Proofs.Rereading

/-!
Tokens without their places. The same text is cut into tokens that look the same wherever it stands
(`Token.tokenize_alike`), and what is read from tokens is read from all that look the same: an
expression (`Expr.ofTokens_alike`), a signature (`Signature.ofTokens_alike`) and the headers of the
tags that import a file (`Header.ofTokens_alike`). So the tags of the language are **placeless**
(`TagSet.placeless_table`): where a tag stands matters to nothing but to its errors.
-/

namespace Stencil

open Token (Alike)

/-! ### Tokens -/

namespace Token

lemma Alike.symm {us vs : List Token} (h : Alike us vs) : Alike vs us :=
  Eq.symm h

lemma Alike.significant {us vs : List Token} (h : Alike us vs) :
    Alike (significant us) (significant vs) := by
  have hseen (ts : List Token) :
      (Token.significant ts).map seen = (ts.map seen).filter fun p => p.1 ≠ .blank := by
    rw [List.filter_map]
    rfl
  rw [Alike, hseen, hseen, h]

lemma Alike.sources_eq {us vs : List Token} (h : Alike us vs) : sources us = sources vs := by
  have hseen (ts : List Token) : ts.map source = (ts.map seen).map fun p =>
      source ⟨p.1, p.2, ⟨0, 0⟩, 0⟩ := by
    rw [List.map_map]
    rfl
  rw [sources, sources, hseen, hseen, h]

/-- A text is cut into the same tokens wherever it stands. -/
lemma tokenize_alike {cs : List Char} {offset line : Nat} {ts : List Token}
    (h : tokenize cs offset line = .ok ts) (offset' line' : Nat) :
    ∃ ts', tokenize cs offset' line' = .ok ts' ∧ Alike ts ts' := by
  obtain ⟨ps, hps, hseen⟩ := lexes_of_tokenize h
  obtain ⟨ts', hts', hseen'⟩ := hps.tokenize_eq offset' line'
  exact ⟨ts', hts', hseen.trans hseen'.symm⟩

end Token

/-! ### Expressions and signatures -/

lemma Expr.ofTokens_alike {us vs : List Token} {e : Expr} (h : ofTokens us = .ok e)
    (hvs : Alike us vs) : ofTokens vs = .ok e :=
  ((derives_of_ofTokens h).alike hvs.significant).ofTokens_eq

lemma Parameter.Written.alike {us vs : List Token} {p : Parameter} (h : p.Written us)
    (hvs : Alike us vs) : p.Written vs := by
  cases h with
  | plain hq hplain =>
    obtain ⟨q', rfl, hkind, htext⟩ := hvs.singleton
    rw [← htext]
    exact .plain (hkind.trans hq) ((Token.isPlain_congr htext).trans hplain)
  | default hq hplain ha he =>
    obtain ⟨q', ws, rfl, hkind, htext, hws⟩ := hvs.cons
    obtain ⟨a', ds', rfl, ha', _, hds⟩ := hws.cons
    rw [← htext, hds.sources_eq]
    exact .default (hkind.trans hq) ((Token.isPlain_congr htext).trans hplain) (ha'.trans ha)
      (Expr.ofTokens_alike he hds)

namespace Signature

lemma Parameters.alike {us vs : List Token} {ps : List Parameter} (h : Parameters us ps)
    (hvs : Alike us vs) : Parameters vs ps := by
  induction h generalizing vs with
  | none =>
    obtain rfl := hvs.nil
    exact .none
  | last hp => exact .last (hp.alike hvs)
  | more hp hc _ ih =>
    obtain ⟨us', c', vs', rfl, hus, hc', hvs'⟩ := hvs.separated
    exact .more (hp.alike hus) (hc'.trans hc) (ih hvs')

/-- Tokens that look the same are written for the same signature. -/
lemma Written.alike {us vs : List Token} {sig : Signature} (h : Written us sig)
    (hvs : Alike us vs) : Written vs sig := by
  cases h with
  | empty ho hplain =>
    obtain ⟨o', rfl, hkind, htext⟩ := hvs.singleton
    rw [← htext]
    exact .empty (hkind.trans ho) ((Token.isPlain_congr htext).trans hplain)
  | call ho hplain hps hc hnodup =>
    obtain ⟨o', us', c', rfl, ho', htext, hus, hc'⟩ := hvs.bracketed
    rw [← htext]
    exact .call (ho'.trans ho) ((Token.isPlain_congr htext).trans hplain) (hps.alike hus)
      (hc'.trans hc) hnodup

lemma ofTokens_alike {place place' : Place} {us vs : List Token} {sig : Signature}
    (h : ofTokens place us = .ok sig) (hvs : Alike us vs) : ofTokens place' vs = .ok sig :=
  ((written_of_ofTokens h).alike hvs.significant).ofTokens_eq place'

end Signature

/-! ### Headers -/

namespace Header

/-- The same has been found of two headers, the places of the words aside. -/
structure Found.Alike (f g : Found) : Prop where
  path : g.path = f.path
  words : Token.Alike f.words g.words
  withContext : g.withContext = f.withContext

lemma Found.Alike.feed {f f' g : Found} {t u : Token} {tag : String} (hfg : f.Alike g)
    (hkind : u.kind = t.kind) (htext : u.text = t.text) (h : f.feed tag t = .ok f') :
    ∃ g', g.feed tag u = .ok g' ∧ f'.Alike g' := by
  rw [Found.feed] at h ⊢
  rw [hkind, htext]
  split at h
  · cases h
    exact ⟨g, rfl, hfg⟩
  · cases h
    exact ⟨g, rfl, hfg⟩
  · split at h
    next hnone =>
      cases h
      rw [if_pos (hfg.path ▸ hnone)]
      exact ⟨_, rfl, rfl, hfg.words, hfg.withContext⟩
    next => cases h
  · split at h
    next has =>
      cases h
      exact ⟨g, if_pos has, hfg⟩
    next has =>
      rw [if_neg has]
      split at h
      next hwith =>
        cases h
        exact ⟨_, if_pos hwith, hfg.path, hfg.words, rfl⟩
      next hwith =>
        cases h
        refine ⟨_, if_neg hwith, hfg.path, ?_, hfg.withContext⟩
        have hwords := hfg.words
        rw [Token.Alike] at hwords ⊢
        simp [hwords, Token.seen, hkind, htext]
  · cases h

lemma Found.Alike.foldlM_feed {f f' g : Found} {us vs : List Token} {tag : String}
    (hfg : f.Alike g) (hvs : Token.Alike us vs) (h : us.foldlM (Found.feed tag) f = .ok f') :
    ∃ g', vs.foldlM (Found.feed tag) g = .ok g' ∧ f'.Alike g' := by
  induction us generalizing f g vs with
  | nil =>
    obtain rfl := hvs.nil
    cases h
    exact ⟨g, rfl, hfg⟩
  | cons t us ih =>
    obtain ⟨u, vs, rfl, hkind, htext, hvs⟩ := hvs.cons
    rw [List.foldlM_cons] at h
    obtain ⟨f₁, hfeed, h⟩ := ok_of_bind h
    obtain ⟨g₁, hfeed', hfg⟩ := hfg.feed hkind htext hfeed
    rw [List.foldlM_cons, bind_eq_of_ok hfeed']
    exact ih hfg hvs h

/-- Tokens that look the same have the same header, the places of its words aside. -/
lemma ofTokens_alike {tag : String} {place : Place} (place' : Place) {us vs : List Token}
    {h : Header} (hus : ofTokens tag place us = .ok h) (hvs : Token.Alike us vs) :
    ∃ words, ofTokens tag place' vs = .ok ⟨h.path, words, h.withContext⟩ ∧
      Token.Alike h.words words := by
  obtain ⟨f, hf, hus⟩ := ok_of_bind hus
  obtain ⟨g, hg, hfg⟩ := Found.Alike.foldlM_feed ⟨rfl, rfl, rfl⟩ hvs hf
  rw [ofTokens, bind_eq_of_ok hg]
  rw [hfg.path]
  split at hus
  next => cases hus
  next path hpath =>
    cases hus
    rw [hfg.withContext]
    exact ⟨g.words, rfl, hfg.words⟩

end Header

lemma ImportAll.ofTokens_alike {place place' : Place} {us vs : List Token} {header : ImportAll}
    (h : ofTokens place us = .ok header) (hvs : Alike us vs) :
    ofTokens place' vs = .ok header := by
  obtain ⟨found, hfound, h⟩ := ok_of_bind h
  obtain ⟨words, hfound', hwords⟩ := Header.ofTokens_alike place' hfound hvs
  rw [ofTokens, bind_eq_of_ok hfound']
  split at h
  next => cases h
  next => cases h
  next handle hhandle =>
    rw [hhandle] at hwords
    obtain ⟨handle', rfl, _, htext⟩ := hwords.singleton
    split at h
    next hplain =>
      cases h
      dsimp only
      rw [if_pos ((Token.isPlain_congr htext).trans hplain), htext]
      rfl
    next => cases h

namespace ImportNames

/-- Lists split in two that look the same look the same in both parts. -/
lemma splitAtImport_alike {us vs : List Token} (hvs : Alike us vs) :
    (splitAtImport us).map (Prod.map (List.map Token.seen) (List.map Token.seen)) =
      (splitAtImport vs).map (Prod.map (List.map Token.seen) (List.map Token.seen)) := by
  induction us generalizing vs with
  | nil =>
    obtain rfl := hvs.nil
    rfl
  | cons t us ih =>
    obtain ⟨u, vs, rfl, hkind, htext, hvs⟩ := hvs.cons
    have hseen : t.seen = u.seen := by rw [Token.seen, Token.seen, hkind, htext]
    have hrest := ih hvs
    rw [splitAtImport, splitAtImport, htext]
    cases hus : splitAtImport us with
    | none =>
      rw [hus] at hrest
      rw [Option.map_eq_none_iff.1 hrest.symm]
      dsimp only
      split
      next => exact congrArg (fun seen => some ([], seen)) hvs
      next => rfl
    | some parts =>
      rw [hus] at hrest
      obtain ⟨parts', hparts', hrest⟩ := Option.map_eq_some_iff.1 hrest.symm
      rw [hparts']
      dsimp only [Option.map_some, Prod.map]
      rw [List.map_cons, List.map_cons, hseen]
      simpa [Prod.map] using hrest.symm

lemma collect_alike {us vs : List Token} {done names : List String}
    (h : collect done us = .ok names) (hvs : Alike us vs) : collect done vs = .ok names := by
  induction us generalizing vs done with
  | nil =>
    obtain rfl := hvs.nil
    exact h
  | cons t us ih =>
    obtain ⟨u, vs, rfl, _, htext, hvs⟩ := hvs.cons
    rw [collect] at h ⊢
    rw [Token.isPlain_congr htext, htext]
    split at h
    next hplain =>
      rw [if_pos hplain]
      exact ih h hvs
    next => cases h

lemma ofTokens_alike {place place' : Place} {us vs : List Token} {header : ImportNames}
    (h : ofTokens place us = .ok header) (hvs : Alike us vs) :
    ofTokens place' vs = .ok header := by
  obtain ⟨found, hfound, h⟩ := ok_of_bind h
  obtain ⟨words, hfound', hwords⟩ := Header.ofTokens_alike place' hfound hvs
  have hsplit := splitAtImport_alike hwords
  rw [ofTokens, bind_eq_of_ok hfound']
  split at h
  next => cases h
  next => cases h
  next listed hlisted =>
    rw [hlisted] at hsplit
    obtain ⟨⟨before, after⟩, hparts, hseen⟩ := Option.map_eq_some_iff.1 hsplit.symm
    obtain ⟨hbefore, hafter⟩ : before.map Token.seen = [] ∧
        after.map Token.seen = listed.map Token.seen := by simpa [Prod.map] using hseen
    obtain rfl := List.map_eq_nil_iff.1 hbefore
    dsimp only
    rw [hparts]
    obtain ⟨names, hnames, h⟩ := ok_of_bind h
    dsimp only
    rw [bind_eq_of_ok (collect_alike hnames hafter.symm)]
    split at h
    next => cases h
    next hne =>
      cases h
      exact if_neg hne

end ImportNames

/-! ### Tags -/

/-- **The tag is placeless**: what it says does not depend on where it stands. -/
def TagReader.Placeless (reader : TagReader) : Prop :=
  ∀ {place : Place} (place' : Place) {us vs : List Token} {args : TagArgs},
    reader.read place us = .ok args → Alike us vs → reader.read place' vs = .ok args

/-- All tags of the table are placeless. -/
def TagTable.Placeless (tags : TagTable) : Prop :=
  ∀ {name : String} {reader : TagReader}, tags.get? name = some reader → reader.Placeless

lemma TagKind.placeless (kind : TagKind) : kind.reader.Placeless := by
  intro place place' us vs args h hvs
  cases kind with
  | definition =>
    obtain ⟨sig, hsig, h⟩ := ok_of_bind h
    cases h
    exact bind_eq_of_ok (Signature.ofTokens_alike hsig hvs) _
  | callBlock =>
    have hempty : (Token.significant vs).isEmpty = (Token.significant us).isEmpty := by
      rw [← List.isEmpty_map (f := Token.seen), ← hvs.significant, List.isEmpty_map]
    change TagKind.callBlock.read place us = .ok args at h
    change TagKind.callBlock.read place' vs = .ok args
    rw [read] at h ⊢
    rw [hempty, ← hvs.sources_eq]
    split at h
    next => cases h
    next hne =>
      obtain ⟨e, he, h⟩ := ok_of_bind h
      rw [if_neg hne, bind_eq_of_ok (Expr.ofTokens_alike he hvs)]
      exact h
  | importAll =>
    obtain ⟨header, hheader, h⟩ := ok_of_bind h
    cases h
    exact bind_eq_of_ok (ImportAll.ofTokens_alike hheader hvs) _
  | importNames =>
    obtain ⟨header, hheader, h⟩ := ok_of_bind h
    cases h
    exact bind_eq_of_ok (ImportNames.ofTokens_alike hheader hvs) _

/-- The tags of the language are placeless. -/
lemma TagSet.placeless_table (tags : TagSet) : tags.table.Placeless := by
  intro name reader h
  rw [get?_table] at h
  obtain ⟨kind, _, rfl⟩ := Option.map_eq_some_iff.1 h
  exact kind.placeless

end Stencil
