import Stencil.Proofs.Grammar.Signature

/-!
What readers report. An error **concerns** tokens (`SyntaxError.Concerns`) if it is at one of them
or, where an expression breaks off, behind one. Reading an expression fails with such errors only
(`Expr.failsWith_ofTokens`). So does reading a signature or the header of a tag that imports a
file, apart from errors at the place of the tag as a whole; this is `TagKind.failsWith_read`.
-/

namespace Stencil

/-! ### Errors at tokens -/

/-- **The error concerns the tokens**: it is at one of them, or behind one of them since an
expression breaks off. -/
inductive SyntaxError.Concerns (ts : List Token) : SyntaxError → Prop
  | token {t : Token} {cause : SyntaxCause} : t ∈ ts → cause ≠ .endOfExpression →
      Concerns ts (.atToken t cause)
  | behind {t : Token} : t ∈ ts →
      Concerns ts ⟨.endOfExpression, max 1 t.line, ⟨t.span.stop, t.span.stop⟩, []⟩

open SyntaxError (Concerns)

lemma SyntaxError.Concerns.mono {us vs : List Token} {e : SyntaxError} (h : Concerns us e)
    (husvs : us ⊆ vs) : Concerns vs e := by
  cases h with
  | token ht hcause => exact .token (husvs ht) hcause
  | behind ht => exact .behind (husvs ht)

/-! ### Expressions -/

namespace Expr

variable {stop : SyntaxError} {ts us : List Token} {α : Type} {x : Except SyntaxError α}

/-- The error is the one for breaking off, or concerns the tokens. -/
def Faults (stop : SyntaxError) (ts : List Token) (e : SyntaxError) : Prop :=
  e = stop ∨ Concerns ts e

lemma Faults.mono {e : SyntaxError} (h : Faults stop us e) (hus : us ⊆ ts) : Faults stop ts e :=
  h.imp_right fun h => h.mono hus

lemma concerns_unexpected {t : Token} (ht : t ∈ ts) : Concerns ts (unexpected t) := by
  rw [unexpected]
  split
  · exact .token ht (by simp)
  · exact .token ht (by simp)

lemma failsWith_unexpected {t : Token} (ht : t ∈ ts) :
    FailsWith (Faults stop ts) (.error (unexpected t) : Except SyntaxError α) :=
  .error (.inr (concerns_unexpected ht))

lemma failsWith_expect (kind : TokenKind) (ts : List Token) :
    FailsWith (Faults stop ts) (expect stop kind ts) := by
  cases ts with
  | nil => exact .error (.inl rfl)
  | cons t rest =>
    rw [expect]
    split
    · exact .ok _
    · exact failsWith_unexpected List.mem_cons_self

lemma failsWith_separator (close : TokenKind) (ts : List Token) :
    FailsWith (Faults stop ts) (separator stop close ts) := by
  cases ts with
  | nil => exact .error (.inl rfl)
  | cons t rest =>
    rw [separator]
    split
    · exact .ok _
    · split
      · exact .ok _
      · exact failsWith_unexpected List.mem_cons_self

lemma failsWith_key (ts : List Token) : FailsWith (Faults stop ts) (key stop ts) := by
  cases ts with
  | nil => exact .error (.inl rfl)
  | cons t rest =>
    rw [key]
    dsimp only
    split
    · exact failsWith_unexpected List.mem_cons_self
    · refine FailsWith.bind ?_ fun _ _ => .ok _
      exact (failsWith_expect .colon rest).mono fun e he => he.mono (List.subset_cons_self t rest)

/-- Errors that concern the tokens left concern all of them. -/
lemma failsWith_of_rest {rest : List Token} (hx : FailsWith (Faults stop rest) x)
    (hrest : ∀ t ∈ rest, t ∈ ts) : FailsWith (Faults stop ts) x :=
  hx.mono fun _ he => he.mono hrest

mutual

/-- Reading an expression fails at one of the tokens, or by breaking off. -/
lemma failsWith_read (ts : List Token) : FailsWith (Faults stop ts) (read stop ts) := by
  rw [read]
  refine (failsWith_readOperand ts).bind fun ⟨e, rest, hrest⟩ h => ?_
  obtain ⟨us, hts, _⟩ := derives_of_readOperand h
  refine (failsWith_of_rest (failsWith_readIndexes e rest) ?_).bind fun _ _ => .ok _
  simp +contextual [hts]
termination_by (ts.length, 2)

lemma failsWith_readIndexes (target : Expr) :
    ∀ ts : List Token, FailsWith (Faults stop ts) (readIndexes stop target ts)
  | [] => by
    rw [readIndexes]
    exact .ok _
  | t :: ts => by
    rw [readIndexes]
    split
    · refine (failsWith_of_rest (failsWith_read ts) (by simp +contextual)).bind
        fun ⟨place, rest₁, h₁⟩ h => ?_
      obtain ⟨us, hts, _⟩ := derives_of_read h
      refine (failsWith_of_rest (failsWith_expect _ rest₁) (by simp +contextual [hts])).bind
        fun ⟨rest₂, h₂⟩ h => ?_
      obtain ⟨c, hrest₁, _⟩ := kind_of_expect h
      refine (failsWith_of_rest (failsWith_readIndexes _ rest₂) ?_).bind fun _ _ => .ok _
      simp +contextual [hts, hrest₁]
    · exact .ok _
termination_by ts => (ts.length, 0)

lemma failsWith_readOperand :
    ∀ ts : List Token, FailsWith (Faults stop ts) (readOperand stop ts)
  | [] => by
    rw [readOperand]
    exact .error (.inl rfl)
  | t :: ts => by
    rw [readOperand]
    split
    · exact .ok _
    · split
      · exact .ok _
      · exact failsWith_unexpected List.mem_cons_self
    · exact .ok _
    · exact .ok _
    · exact .ok _
    · exact .ok _
    · exact (failsWith_of_rest (failsWith_readArguments ts) (by simp +contextual)).bind
        fun _ _ => .ok _
    · exact (failsWith_of_rest (failsWith_readItems ts) (by simp +contextual)).bind
        fun _ _ => .ok _
    · exact (failsWith_of_rest (failsWith_readEntries ts) (by simp +contextual)).bind
        fun _ _ => .ok _
    · refine (failsWith_of_rest (failsWith_read ts) (by simp +contextual)).bind
        fun ⟨e, rest₁, h₁⟩ h => ?_
      obtain ⟨us, hts, _⟩ := derives_of_read h
      refine (failsWith_of_rest (failsWith_expect _ rest₁) ?_).bind fun _ _ => .ok _
      simp +contextual [hts]
    · exact failsWith_unexpected List.mem_cons_self
termination_by ts => (ts.length, 1)

lemma failsWith_readArguments :
    ∀ ts : List Token, FailsWith (Faults stop ts) (readArguments stop ts)
  | [] => by
    rw [readArguments]
    exact .error (.inl rfl)
  | t :: ts => by
    rw [readArguments]
    split
    · exact .ok _
    · exact failsWith_readPositional (t :: ts)
termination_by ts => (ts.length, 4)

lemma failsWith_readPositional (ts : List Token) :
    FailsWith (Faults stop ts) (readPositional stop ts) := by
  rw [readPositional]
  split
  · exact (failsWith_readKeywords _ ts).bind fun _ _ => .ok _
  · refine (failsWith_read ts).bind fun ⟨e, rest₁, h₁⟩ h => ?_
    obtain ⟨us, hts, _⟩ := derives_of_read h
    refine (failsWith_of_rest (failsWith_separator _ rest₁) (by simp +contextual [hts])).bind
      fun ⟨more, rest₂, h₂⟩ h => ?_
    obtain ⟨c, hrest₁, _⟩ := kind_of_separator h
    cases more with
    | false => exact .ok _
    | true =>
      refine (failsWith_of_rest (failsWith_readPositional rest₂) ?_).bind fun _ _ => .ok _
      simp +contextual [hts, hrest₁]
termination_by (ts.length, 3)

lemma failsWith_readKeywords (first : String) (ts : List Token) :
    FailsWith (Faults stop ts) (readKeywords stop first ts) := by
  rw [readKeywords.eq_def]
  split
  · split
    · exact .error (.inl rfl)
    · exact .error (.inr (.token List.mem_cons_self (by simp)))
  next k rest₀ h₀ hkeyword =>
    obtain ⟨a, hts, _⟩ := kinds_of_keyword? hkeyword
    split
    · refine (failsWith_of_rest (failsWith_read rest₀) (by simp +contextual [hts])).bind
        fun ⟨e, rest₁, h₁⟩ h => ?_
      obtain ⟨us, hrest₀, _⟩ := derives_of_read h
      refine (failsWith_of_rest (failsWith_separator _ rest₁)
        (by simp +contextual [hts, hrest₀])).bind fun ⟨more, rest₂, h₂⟩ h => ?_
      obtain ⟨c, hrest₁, _⟩ := kind_of_separator h
      cases more with
      | false => exact .ok _
      | true =>
        refine (failsWith_of_rest (failsWith_readKeywords first rest₂) ?_).bind fun _ _ => .ok _
        simp +contextual [hts, hrest₀, hrest₁]
    · exact failsWith_unexpected (by simp [hts])
termination_by (ts.length, 2)

lemma failsWith_readItems :
    ∀ ts : List Token, FailsWith (Faults stop ts) (readItems stop ts)
  | [] => by
    rw [readItems]
    exact .error (.inl rfl)
  | t :: ts => by
    have hlength : (t :: ts).length = ts.length + 1 := rfl
    rw [readItems]
    split
    · exact .ok _
    · refine (failsWith_read (t :: ts)).bind fun ⟨e, rest₁, h₁⟩ h => ?_
      obtain ⟨us, hts, _⟩ := derives_of_read h
      refine (failsWith_of_rest (failsWith_separator _ rest₁) (by simp +contextual [hts])).bind
        fun ⟨more, rest₂, h₂⟩ h => ?_
      obtain ⟨c, hrest₁, _⟩ := kind_of_separator h
      cases more with
      | false => exact .ok _
      | true =>
        refine (failsWith_of_rest (failsWith_readItems rest₂) ?_).bind fun _ _ => .ok _
        simp +contextual [hts, hrest₁]
termination_by ts => (ts.length, 3)

lemma failsWith_readEntries :
    ∀ ts : List Token, FailsWith (Faults stop ts) (readEntries stop ts)
  | [] => by
    rw [readEntries]
    exact .error (.inl rfl)
  | t :: ts => by
    have hlength : (t :: ts).length = ts.length + 1 := rfl
    rw [readEntries]
    split
    · exact .ok _
    · refine (failsWith_key (t :: ts)).bind fun ⟨name, rest₀, h₀⟩ h => ?_
      obtain ⟨k, a, hts, _⟩ := key_of_key h
      refine (failsWith_of_rest (failsWith_read rest₀) (by simp +contextual [hts])).bind
        fun ⟨e, rest₁, h₁⟩ h => ?_
      obtain ⟨us, hrest₀, _⟩ := derives_of_read h
      refine (failsWith_of_rest (failsWith_separator _ rest₁)
        (by simp +contextual [hts, hrest₀])).bind fun ⟨more, rest₂, h₂⟩ h => ?_
      obtain ⟨c, hrest₁, _⟩ := kind_of_separator h
      cases more with
      | false => exact .ok _
      | true =>
        refine (failsWith_of_rest (failsWith_readEntries rest₂) ?_).bind fun _ _ => .ok _
        simp +contextual [hts, hrest₀, hrest₁]
termination_by ts => (ts.length, 3)

end

lemma mem_of_mem_significant {t : Token} (ht : t ∈ Token.significant ts) : t ∈ ts :=
  (List.mem_filter.1 ht).1

/-- So does reading tokens as an expression, if there are any but white space. -/
lemma failsWith_ofTokens (hne : Token.significant ts ≠ []) :
    FailsWith (Concerns ts) (ofTokens ts) := by
  rw [ofTokens]
  refine FailsWith.bind (.mono (failsWith_read _) fun e he => ?_) fun r h => ?_
  · obtain rfl | he := he
    · rw [endError, List.getLast?_eq_some_getLast hne]
      exact .behind (mem_of_mem_significant (List.getLast_mem hne))
    · exact he.mono fun t => mem_of_mem_significant
  · obtain ⟨e, rest, _⟩ := r
    obtain ⟨us, hts, _⟩ := derives_of_read h
    cases rest with
    | nil => exact .ok _
    | cons t rest =>
      refine .error (concerns_unexpected (mem_of_mem_significant ?_))
      simp [hts]

end Expr

/-! ### Signatures -/

/-- **The error is one of a tag**: it is at the place of the tag as a whole, or concerns the
tokens. -/
def SyntaxError.OfTag (place : Place) (ts : List Token) (e : SyntaxError) : Prop :=
  (∃ cause, cause ≠ .endOfExpression ∧ e = .atPlace place cause) ∨ Concerns ts e

lemma failsWith_atPlace {α : Type} {place : Place} {ts : List Token} {cause : SyntaxCause}
    (hcause : cause ≠ .endOfExpression) :
    FailsWith (SyntaxError.OfTag place ts) (.error (.atPlace place cause) : Except SyntaxError α) :=
  .error (.inl ⟨cause, hcause, rfl⟩)

namespace Signature

variable {us : List Token} {t : Token}

lemma failsWith_atToken {α : Type} {cause : SyntaxCause} (hcause : cause ≠ .endOfExpression) :
    FailsWith (Concerns (us ++ [t])) (.error (.atToken t cause) : Except SyntaxError α) :=
  .error (.token (by simp) hcause)

namespace Partial

variable {p : Partial}

/-- The default that a token ends has been fed. -/
lemma failsWith_settle (h : p.Spelled us) (hus : ∀ u ∈ us, u.kind ≠ .blank) :
    FailsWith (Concerns (us ++ [t])) (p.settle t) := by
  cases h with
  | settled => exact .ok _
  | @pending name depth xs us ts q a =>
    cases ts with
    | nil => exact failsWith_atToken (by simp)
    | cons first ts =>
      have hmem {u : Token} (hu : u ∈ first :: ts) : u ∈ us ++ q :: a :: first :: ts :=
        List.mem_append_right _ (.tail _ (.tail _ hu))
      have hne : Token.significant (first :: ts) ≠ [] :=
        List.ne_nil_of_mem (List.mem_filter.2
          ⟨List.mem_cons_self, by simpa using hus first (hmem List.mem_cons_self)⟩)
      refine FailsWith.bind (.mono (Expr.failsWith_ofTokens hne) fun e he => ?_) fun _ _ => .ok _
      exact he.mono fun u hu => List.mem_append_left _ (hmem hu)

lemma failsWith_feed (h : p.Spelled us) (hus : ∀ u ∈ us, u.kind ≠ .blank) :
    FailsWith (Concerns (us ++ [t])) (p.feed t) := by
  have hsettle := failsWith_settle (t := t) h hus
  rw [feed]
  split
  case h_1 | h_2 | h_3 | h_4 | h_11 => exact .ok _
  case h_5 =>
    split
    · split
      · exact .ok _
      · exact failsWith_atToken (by simp)
    · exact .ok _
  case h_6 =>
    split
    · split
      · exact .ok _
      · exact failsWith_atToken (by simp)
    · exact .ok _
  case h_7 | h_8 =>
    split
    · exact hsettle.bind fun _ _ => .ok _
    · exact .ok _
  case h_9 | h_10 =>
    split
    · exact failsWith_atToken (by simp)
    · exact .ok _

end Partial

lemma State.failsWith_feed {s : State} (h : s.Spelled us) (hus : ∀ u ∈ us, u.kind ≠ .blank) :
    FailsWith (Concerns (us ++ [t])) (s.feed t) := by
  cases h with
  | start =>
    rw [State.feed, begin]
    split
    · exact .ok _
    · split
      · exact .ok _
      · exact failsWith_atToken (by simp)
  | @opened o p us _ _ _ hp =>
    rw [List.forall_mem_cons] at hus
    exact (Partial.failsWith_feed hp hus.2).mono fun e he => he.mono (List.subset_cons_self _ _)
  | empty | closed => exact failsWith_atToken (by simp)

/-- The tokens of the pieces have been fed. -/
lemma failsWith_collect {name : String} {xs : List Piece} (h : Spells xs us) (expecting : Bool)
    (done : List Parameter) : FailsWith (Concerns us) (collect name expecting done xs) := by
  induction h generalizing expecting done with
  | nil => exact .ok _
  | @cons x xs us vs hx _ ih =>
    have hrest (expecting : Bool) (done : List Parameter) :
        FailsWith (Concerns (us ++ vs)) (collect name expecting done xs) :=
      (ih expecting done).mono fun e he => he.mono (List.subset_append_right us vs)
    cases hx with
    | plain | default =>
      rw [collect]
      split
      · split
        · exact .error (.token (by simp) (by simp))
        · exact hrest _ _
      · exact .error (.token (by simp) (by simp))
    | comma =>
      rw [collect]
      split
      · exact .error (.token (by simp) (by simp))
      · exact hrest _ _
    | other => exact .error (.token (by simp) (by simp))

lemma State.failsWith_finish {s : State} (h : s.Spelled us) (place : Place) :
    FailsWith (SyntaxError.OfTag place us) (s.finish place) := by
  cases h with
  | start | opened => exact failsWith_atPlace (by simp)
  | empty => exact .ok _
  | closed _ _ hxs =>
    refine FailsWith.bind (.mono (failsWith_collect hxs _ _) fun e he => ?_) fun _ _ => .ok _
    exact .inr (he.mono fun u hu => by simp [hu])

lemma failsWith_ofTokens (place : Place) (ts : List Token) :
    FailsWith (SyntaxError.OfTag place ts) (ofTokens place ts) := by
  rw [ofTokens]
  have hmem {u : Token} (hu : u ∈ Token.significant ts) : u ∈ ts := Expr.mem_of_mem_significant hu
  refine FailsWith.bind (.foldlM (I := fun us s => s.Spelled us) .start
    (fun _ _ _ _ => State.Spelled.feed) fun us s t hfront hs => ?_) fun s hs => ?_
  · have hus : ∀ u ∈ us ++ [t], u ∈ Token.significant ts := fun u hu => hfront.subset hu
    have hsolid : ∀ u ∈ us, u.kind ≠ .blank := fun u hu => by
      simpa using (List.mem_filter.1 (hus u (by simp [hu]))).2
    refine (State.failsWith_feed hs hsolid).mono fun e he => .inr ?_
    exact he.mono fun u hu => hmem (hus u hu)
  · have hspelled := foldlM_tracks (fun us (s : State) => s.Spelled us)
      (fun _ _ _ _ => State.Spelled.feed) .start hs
    refine (State.failsWith_finish hspelled place).mono fun e he => ?_
    exact he.imp_right fun he => he.mono fun u hu => hmem hu

end Signature

/-! ### Headers -/

namespace Header

variable {tag : String} {place : Place} {ts : List Token}

lemma Found.failsWith_feed {f : Found} {t : Token} (ht : t ∈ ts) :
    FailsWith (Concerns ts) (f.feed tag t) := by
  rw [feed]
  split
  · exact .ok _
  · exact .ok _
  · split
    · exact .ok _
    · exact .error (.token ht (by simp))
  · split
    · exact .ok _
    · split <;> exact .ok _
  · exact .error (.token ht (by simp))

/-- A token is one of the words, or leaves them as they are. -/
lemma Found.words_of_feed {f f' : Found} {t : Token} {us : List Token} (hf : f.words ⊆ us)
    (h : f.feed tag t = .ok f') : f'.words ⊆ us ++ [t] := by
  have hkept : f.words ⊆ us ++ [t] := fun w hw => List.mem_append_left _ (hf hw)
  rw [feed] at h
  split at h
  · cases h
    exact hkept
  · cases h
    exact hkept
  · split at h
    · cases h
      exact hkept
    · cases h
  · split at h
    · cases h
      exact hkept
    · split at h
      · cases h
        exact hkept
      · cases h
        exact List.append_subset.2 ⟨hkept, by simp⟩
  · cases h

lemma failsWith_ofTokens : FailsWith (SyntaxError.OfTag place ts) (ofTokens tag place ts) := by
  rw [ofTokens]
  refine FailsWith.bind (.foldlM (I := fun _ _ => True) trivial (fun _ _ _ _ _ _ => trivial)
    fun us f t hfront _ => ?_) fun f _ => ?_
  · exact (Found.failsWith_feed (hfront.subset (by simp))).mono fun e he => .inr he
  · split
    · exact failsWith_atPlace (by simp)
    · exact .ok _

/-- The words of a header are among its tokens. -/
lemma words_subset {header : Header} (h : ofTokens tag place ts = .ok header) :
    header.words ⊆ ts := by
  obtain ⟨f, hf, h⟩ := ok_of_bind h
  have hwords := foldlM_tracks (fun us (f : Found) => f.words ⊆ us)
    (fun _ _ _ _ => Found.words_of_feed) (List.nil_subset []) hf
  split at h
  · cases h
  · cases h
    exact hwords

end Header

lemma ImportAll.failsWith_ofTokens (place : Place) (ts : List Token) :
    FailsWith (SyntaxError.OfTag place ts) (ofTokens place ts) := by
  rw [ofTokens]
  refine Header.failsWith_ofTokens.bind fun header h => ?_
  have hwords := Header.words_subset h
  split
  · exact failsWith_atPlace (by simp)
  next extra _ hextra =>
    exact .error (.inr (.token (hwords (by simp [hextra])) (by simp)))
  next handle hhandle =>
    split
    · exact .ok _
    · exact .error (.inr (.token (hwords (by simp [hhandle])) (by simp)))

namespace ImportNames

lemma splitAtImport_subset {ts before after : List Token}
    (h : splitAtImport ts = some (before, after)) : before ⊆ ts ∧ after ⊆ ts := by
  induction ts generalizing before with
  | nil => cases h
  | cons t rest ih =>
    rw [splitAtImport] at h
    split at h
    next before' after' hrest =>
      cases h
      obtain ⟨hbefore, hafter⟩ := ih hrest
      exact ⟨List.cons_subset_cons t hbefore,
        List.Subset.trans hafter (List.subset_cons_self t rest)⟩
    next =>
      split at h
      · cases h
        exact ⟨List.nil_subset _, List.subset_cons_self t _⟩
      · cases h

lemma failsWith_collect {ts : List Token} (done : List String) :
    FailsWith (Concerns ts) (collect done ts) := by
  induction ts generalizing done with
  | nil => exact .ok _
  | cons t rest ih =>
    rw [collect]
    split
    · exact (ih _).mono fun e he => he.mono (List.subset_cons_self t rest)
    · exact .error (.token List.mem_cons_self (by simp))

lemma failsWith_ofTokens (place : Place) (ts : List Token) :
    FailsWith (SyntaxError.OfTag place ts) (ofTokens place ts) := by
  rw [ofTokens]
  refine Header.failsWith_ofTokens.bind fun header h => ?_
  have hwords := Header.words_subset h
  split
  · exact failsWith_atPlace (by simp)
  next stray _ _ hsplit =>
    exact .error (.inr (.token (hwords ((splitAtImport_subset hsplit).1 (by simp))) (by simp)))
  next words hsplit =>
    refine FailsWith.bind (.mono (failsWith_collect []) fun e he => ?_) fun names _ => ?_
    · exact .inr (he.mono fun t ht => hwords ((splitAtImport_subset hsplit).2 ht))
    · split
      · exact failsWith_atPlace (by simp)
      · exact .ok _

end ImportNames

/-! ### Tags -/

/-- **The arguments of a tag fail at the tag or at its tokens.** -/
lemma TagKind.failsWith_read (kind : TagKind) (place : Place) (ts : List Token) :
    FailsWith (SyntaxError.OfTag place ts) (kind.read place ts) := by
  cases kind with
  | definition => exact (Signature.failsWith_ofTokens place ts).bind fun _ _ => .ok _
  | callBlock =>
    rw [read]
    split
    · exact failsWith_atPlace (by simp)
    next hne =>
      rw [List.isEmpty_iff] at hne
      refine FailsWith.bind (.mono (Expr.failsWith_ofTokens hne) fun e he => ?_) fun _ _ => .ok _
      exact .inr he
  | importAll => exact (ImportAll.failsWith_ofTokens place ts).bind fun _ _ => .ok _
  | importNames => exact (ImportNames.failsWith_ofTokens place ts).bind fun _ _ => .ok _

end Stencil
