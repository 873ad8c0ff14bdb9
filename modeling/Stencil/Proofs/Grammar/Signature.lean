import Stencil.Proofs.Grammar.Expression

/-!
The grammar of signatures. `Signature.Written` says which tokens, white space aside, are written
for which signature: a call without arguments, or a call opener, parameters separated by commas
(`Parameters`), and a closing parenthesis; a parameter is a name, with or without an equals sign
and the tokens of its default behind it (`Parameter.Written`).

The signature reader counts brackets and knows nothing of expressions. What it does with a token
inside a default is `Signature.nest`, which refuses tokens that may end the default; in what the
grammar of expressions derives every bracket is closed again and no such token stands outside of
all brackets (`Expr.Derives.nested`).

* What has been fed to the reader is spelled by the pieces that it holds, which every step keeps so
  (`State.Spelled.feed`), and `collect` makes sure that the pieces are parameters with commas
  between them (`follows_of_collect`).
* Parameters are fed one by one, up to the closing parenthesis, and are collected again
  (`feed_parameters`).

The main result is `signatures_exact`.
-/

namespace Stencil

/-! ### The grammar -/

/-- The tokens of a parameter. -/
inductive Parameter.Written : List Token → Parameter → Prop
  | plain {q : Token} : q.kind = .path → q.isPlain = true → Written [q] ⟨q.text, none⟩
  | default {q a : Token} {ds : List Token} {e : Expr} : q.kind = .path → q.isPlain = true →
      a.kind = .assignment → Expr.ofTokens ds = .ok e →
      Written (q :: a :: ds) ⟨q.text, some ⟨Token.sources ds, e⟩⟩

namespace Signature

/-- The tokens of parameters: commas stand between them, and one may stand behind the last. -/
inductive Parameters : List Token → List Parameter → Prop
  | none : Parameters [] []
  | last {us : List Token} {p : Parameter} : p.Written us → Parameters us [p]
  | more {c : Token} {us vs : List Token} {p : Parameter} {ps : List Parameter} : p.Written us →
      c.kind = .comma → Parameters vs ps → Parameters (us ++ c :: vs) (p :: ps)

/-- **The tokens of a signature.** -/
inductive Written : List Token → Signature → Prop
  | empty {o : Token} : o.kind = .emptyCall → o.isPlain = true → Written [o] ⟨o.text, []⟩
  | call {o c : Token} {us : List Token} {ps : List Parameter} : o.kind = .call →
      o.isPlain = true → Parameters us ps → c.kind = .parenClose → (ps.map (·.name)).Nodup →
      Written (o :: (us ++ [c])) ⟨o.text, ps⟩

/-! ### Brackets -/

/-- The brackets that are open behind a token, if it cannot end a default before which `depth` are
open. -/
def nest (depth : Nat) (t : Token) : Option Nat :=
  match t.kind with
  | .call | .parenOpen | .bracketOpen | .curlyOpen => some (depth + 1)
  | .assignment | .comma => if depth = 0 then none else some depth
  | .parenClose | .bracketClose | .curlyClose => if depth = 0 then none else some (depth - 1)
  | _ => some depth

/-- How many brackets have to be open around what is written for the phrase. -/
def around : Expr.Phrase → Nat
  | .expr _ | .operand _ | .indexes _ _ => 0
  | _ => 1

lemma foldlM_nest_significant (us : List Token) (depth : Nat) :
    (Token.significant us).foldlM nest depth = us.foldlM nest depth := by
  induction us generalizing depth with
  | nil => rfl
  | cons t us ih =>
    rw [Token.significant, List.filter_cons, List.foldlM_cons]
    by_cases hblank : t.kind = .blank
    · have hnest : nest depth t = some depth := by simp [nest, hblank]
      rw [if_neg (by simpa using hblank), hnest]
      exact ih depth
    · rw [if_pos (by simpa using hblank), List.foldlM_cons]
      exact congrArg _ (funext ih)

end Signature

open Signature in
/-- The key of an entry opens and closes nothing. -/
lemma Expr.Key.nest_eq {k : Token} {name : String} (h : Key k name) (depth : Nat) :
    nest depth k = some depth := by
  cases h with
  | string hkind | name hkind => simp [nest, hkind]

section Nested

open Signature

/-- An expression closes the brackets that it opens, and has no comma or equals sign outside of
them. -/
lemma Expr.Derives.nested {us : List Token} {φ : Phrase} (h : Derives us φ) :
    ∀ {depth : Nat}, around φ ≤ depth → us.foldlM nest depth = some depth := by
  have inside {φ : Phrase} (depth : Nat) : around φ ≤ depth + 1 := by
    cases φ <;> simp [around]
  induction h with
  | noIndex | noItem | noEntry | noArgument => exact fun _ => rfl
  | string hkind | number hkind | bool hkind | nothing hkind | path hkind | emptyCall hkind =>
    intro depth _
    simp [nest, hkind]
  | expr _ _ ih ih' =>
    intro depth hdepth
    simp [ih hdepth, ih' hdepth]
  | index ho _ hc _ ih ih' =>
    intro depth hdepth
    simp [nest, ho, hc, ih (inside depth), ih' hdepth]
  | call ho _ _ hc ih | list ho _ hc ih | map ho _ hc ih | paren ho _ hc ih =>
    intro depth _
    simp [nest, ho, hc, ih (inside depth)]
  | lastItem _ ih | lastPositional _ ih => exact fun _ => ih (Nat.zero_le _)
  | arguments _ ih | keywords _ ih => exact ih
  -- Commas, and equals signs of keyword arguments, stand inside of brackets.
  | item _ hc _ ih ih' | positional _ hc _ ih ih' =>
    intro depth hdepth
    have hpos : depth ≠ 0 := Nat.pos_iff_ne_zero.1 hdepth
    simp [nest, hc, hpos, ih (Nat.zero_le _), ih' hdepth]
  | lastEntry hk ha _ ih =>
    intro depth _
    rw [List.foldlM_cons, hk.nest_eq]
    simp [nest, ha, ih (Nat.zero_le _)]
  | entry hk ha _ hc _ ih ih' =>
    intro depth hdepth
    have hpos : depth ≠ 0 := Nat.pos_iff_ne_zero.1 hdepth
    rw [List.foldlM_cons, hk.nest_eq]
    simp [nest, ha, hc, hpos, ih (Nat.zero_le _), ih' hdepth]
  | lastKeyword hk _ ha _ ih =>
    intro depth hdepth
    have hpos : depth ≠ 0 := Nat.pos_iff_ne_zero.1 hdepth
    simp [nest, hk, ha, hpos, ih (Nat.zero_le _)]
  | keyword hk _ ha _ hc _ ih ih' =>
    intro depth hdepth
    have hpos : depth ≠ 0 := Nat.pos_iff_ne_zero.1 hdepth
    simp [nest, hk, ha, hc, hpos, ih (Nat.zero_le _), ih' hdepth]

/-- The default of a parameter has no token that may end it. -/
lemma Signature.nested_of_ofTokens {ds : List Token} {e : Expr} (h : Expr.ofTokens ds = .ok e) :
    ds.foldlM nest 0 = some 0 := by
  rw [← foldlM_nest_significant]
  exact (Expr.derives_of_ofTokens h).nested (Nat.zero_le _)

end Nested

namespace Signature

/-! ### Tokens inside a default -/

lemma feed_of_nest {p : Partial} {q t : Token} {ts : List Token} {depth : Nat}
    (hp : p.pending = some (q, ts)) (h : nest p.depth t = some depth) :
    p.feed t = .ok (.opened { p with depth := depth, pending := some (q, ts ++ [t]) }) := by
  have hkeep : p.keep t = { p with pending := some (q, ts ++ [t]) } := by rw [Partial.keep, hp]
  rw [nest] at h
  rw [Partial.feed]
  split at h
  case h_1 hkind | h_2 hkind | h_3 hkind | h_4 hkind =>
    cases h
    simp only [hkind, hkeep]
  case h_5 hkind | h_6 hkind | h_7 hkind | h_8 hkind | h_9 hkind =>
    split at h
    next => cases h
    next hdepth =>
      cases h
      simp only [hkind, hkeep, if_neg hdepth]
  case h_10 =>
    cases h
    split
    all_goals first | contradiction | skip
    · rw [if_neg (by simp [hp]), hkeep]
    · rw [hkeep]

/-- What is fed to the reader inside a default is added to the default. -/
lemma foldlM_feed_of_nest {us ts : List Token} {p : Partial} {q : Token} {depth : Nat}
    (hp : p.pending = some (q, ts)) (h : us.foldlM nest p.depth = some depth) :
    us.foldlM State.feed (.opened p) =
      .ok (.opened { p with depth := depth, pending := some (q, ts ++ us) }) := by
  induction us generalizing p ts with
  | nil =>
    cases h
    rw [List.append_nil, ← hp]
    rfl
  | cons t us ih =>
    rw [List.foldlM_cons] at h
    obtain ⟨inner, hinner, h⟩ := Option.bind_eq_some_iff.1 h
    have hfeed : State.feed (.opened p) t = _ := feed_of_nest hp hinner
    rw [List.foldlM_cons, bind_eq_of_ok hfeed, ih rfl h, List.append_assoc]
    rfl

/-- Whatever part of a default has been fed, it is still being read. -/
lemma feed_default {ds before : List Token} {e : Expr} (h : Expr.ofTokens ds = .ok e)
    (hbefore : before <+: ds) {p : Partial} {q : Token} (hdepth : p.depth = 0)
    (hp : p.pending = some (q, [])) :
    ∃ depth, before.foldlM State.feed (.opened p) =
      .ok (.opened { p with depth := depth, pending := some (q, before) }) := by
  obtain ⟨after, rfl⟩ := hbefore
  have hnested := nested_of_ofTokens h
  rw [List.foldlM_append] at hnested
  obtain ⟨depth, hbefore, _⟩ := Option.bind_eq_some_iff.1 hnested
  exact ⟨depth, foldlM_feed_of_nest hp (hdepth ▸ hbefore)⟩

/-! ### What has been fed is spelled by the pieces -/

/-- The tokens of a piece. -/
inductive Piece.Spelled : Piece → List Token → Prop
  | plain {q : Token} : q.kind = .path → q.isPlain = true → Spelled (.param q none) [q]
  | default {q a : Token} {ds : List Token} {e : Expr} : q.kind = .path → q.isPlain = true →
      a.kind = .assignment → Expr.ofTokens ds = .ok e →
      Spelled (.param q (some ⟨Token.sources ds, e⟩)) (q :: a :: ds)
  | comma {c : Token} : c.kind = .comma → Spelled (.comma c) [c]
  | other (t : Token) : Spelled (.other t) [t]

lemma Piece.Spelled.written {q : Token} {d : Option Default} {us : List Token}
    (h : Piece.Spelled (.param q d) us) : Parameter.Written us ⟨q.text, d⟩ := by
  cases h with
  | plain hkind hplain => exact .plain hkind hplain
  | default hkind hplain ha hds => exact .default hkind hplain ha hds

/-- The tokens of pieces. -/
inductive Spells : List Piece → List Token → Prop
  | nil : Spells [] []
  | cons {x : Piece} {xs : List Piece} {us vs : List Token} : x.Spelled us → Spells xs vs →
      Spells (x :: xs) (us ++ vs)

lemma Spells.concat {x : Piece} {xs : List Piece} {us vs : List Token} (h : Spells xs us)
    (hx : x.Spelled vs) : Spells (xs ++ [x]) (us ++ vs) := by
  induction h with
  | nil => simpa using Spells.cons hx .nil
  | cons hy _ ih =>
    rw [List.append_assoc]
    exact .cons hy ih

lemma Spells.of_concat {x : Piece} {xs : List Piece} {us : List Token}
    (h : Spells (xs ++ [x]) us) : ∃ vs ws, us = vs ++ ws ∧ Spells xs vs ∧ x.Spelled ws := by
  induction xs generalizing us with
  | nil =>
    cases h with
    | cons hx hnil =>
      cases hnil
      exact ⟨[], _, by simp, .nil, hx⟩
  | cons y ys ih =>
    cases h with
    | cons hy hrest =>
      obtain ⟨vs, ws, rfl, hvs, hws⟩ := ih hrest
      exact ⟨_, ws, (List.append_assoc ..).symm, .cons hy hvs, hws⟩

/-- The tokens inside the parentheses of a signature that has not been closed. -/
inductive Partial.Spelled : Partial → List Token → Prop
  | settled {name : String} {depth : Nat} {xs : List Piece} {us : List Token} : Spells xs us →
      Spelled ⟨name, depth, xs, none⟩ us
  | pending {name : String} {depth : Nat} {xs : List Piece} {us ts : List Token} {q a : Token} :
      Spells xs us → q.kind = .path → q.isPlain = true → a.kind = .assignment →
      Spelled ⟨name, depth, xs, some (q, ts)⟩ (us ++ q :: a :: ts)

/-- The tokens that have been fed to the reader. -/
inductive State.Spelled : State → List Token → Prop
  | start : Spelled .start []
  | opened {o : Token} {p : Partial} {us : List Token} : o.kind = .call → o.isPlain = true →
      p.name = o.text → p.Spelled us → Spelled (.opened p) (o :: us)
  | empty {o : Token} : o.kind = .emptyCall → o.isPlain = true → Spelled (.closed o.text []) [o]
  | closed {o c : Token} {xs : List Piece} {us : List Token} : o.kind = .call →
      o.isPlain = true → Spells xs us → c.kind = .parenClose →
      Spelled (.closed o.text xs) (o :: (us ++ [c]))

namespace Partial

lemma Spelled.keep {p : Partial} {us : List Token} (h : p.Spelled us) (t : Token) :
    (p.keep t).Spelled (us ++ [t]) := by
  cases h with
  | settled hxs => exact .settled (hxs.concat (.other t))
  | @pending name depth xs us ts q a hxs hq hplain ha =>
    have hspelled : Spelled ⟨name, depth, xs, some (q, ts ++ [t])⟩ _ := .pending hxs hq hplain ha
    simpa [Partial.keep] using hspelled

/-- The count of brackets does not matter. -/
lemma Spelled.nested {p : Partial} {us : List Token} (h : p.Spelled us) (depth : Nat) :
    Spelled { p with depth := depth } us := by
  cases h with
  | settled hxs => exact .settled hxs
  | pending hxs hq hplain ha => exact .pending hxs hq hplain ha

lemma Spelled.settle {p : Partial} {us : List Token} {t : Token} {xs : List Piece}
    (h : p.Spelled us) (hsettle : p.settle t = .ok xs) : Spells xs us := by
  cases h with
  | settled hxs =>
    cases hsettle
    exact hxs
  | @pending _ _ _ _ ts q a hxs hq hplain ha =>
    cases ts with
    | nil => cases hsettle
    | cons first ts =>
      obtain ⟨e, he, hsettle⟩ := ok_of_bind hsettle
      cases hsettle
      exact hxs.concat (.default hq hplain ha he)

lemma Spelled.assign {p : Partial} {us : List Token} {q t : Token} (h : p.Spelled us)
    (hq : p.assignable? = some q) (ht : t.kind = .assignment) :
    Spelled { p with pieces := p.pieces.dropLast, pending := some (q, []) } (us ++ [t]) := by
  cases h with
  | pending => cases hq
  | settled hxs =>
    rw [assignable?] at hq
    split at hq
    next r hlast =>
      cases hq
      obtain ⟨ys, rfl⟩ := List.getLast?_eq_some_iff.1 hlast
      obtain ⟨vs, ws, rfl, hys, hq⟩ := hxs.of_concat
      cases hq with
      | plain hkind hplain =>
        rw [List.dropLast_concat, List.append_assoc]
        exact .pending hys hkind hplain ht
    next => cases hq

/-- What a token inside the parentheses can do. -/
inductive Fed (p : Partial) (t : Token) : State → Prop
  | kept (depth : Nat) : Fed p t (.opened { p.keep t with depth := depth })
  | named : t.kind = .path → t.isPlain = true → p.pending = none →
      Fed p t (.opened { p with pieces := p.pieces ++ [.param t none] })
  | assigned {q : Token} : t.kind = .assignment → p.assignable? = some q →
      Fed p t (.opened { p with pieces := p.pieces.dropLast, pending := some (q, []) })
  | separated {xs : List Piece} : t.kind = .comma → p.settle t = .ok xs →
      Fed p t (.opened { p with pieces := xs ++ [.comma t], pending := none })
  | closed {xs : List Piece} : t.kind = .parenClose → p.settle t = .ok xs →
      Fed p t (.closed p.name xs)

lemma fed_of_feed {p : Partial} {t : Token} {s : State} (h : p.feed t = .ok s) : p.Fed t s := by
  rw [feed] at h
  split at h
  case h_1 | h_2 | h_3 | h_4 =>
    cases h
    exact .kept (p.depth + 1)
  case h_5 hkind =>
    split at h
    next houter =>
      split at h
      next hplain =>
        cases h
        exact .named hkind hplain (Option.isNone_iff_eq_none.1 houter.2)
      next => cases h
    next =>
      cases h
      exact .kept (p.keep t).depth
  case h_6 hkind =>
    split at h
    next =>
      split at h
      next q hq =>
        cases h
        exact .assigned hkind hq
      next => cases h
    next =>
      cases h
      exact .kept (p.keep t).depth
  case h_7 hkind =>
    split at h
    next =>
      obtain ⟨xs, hxs, h⟩ := ok_of_bind h
      cases h
      exact .separated hkind hxs
    next =>
      cases h
      exact .kept (p.keep t).depth
  case h_8 hkind =>
    split at h
    next =>
      obtain ⟨xs, hxs, h⟩ := ok_of_bind h
      cases h
      exact .closed hkind hxs
    next =>
      cases h
      exact .kept (p.depth - 1)
  case h_9 | h_10 =>
    split at h
    next => cases h
    next =>
      cases h
      exact .kept (p.depth - 1)
  case h_11 =>
    cases h
    exact .kept (p.keep t).depth

lemma keep_name (p : Partial) (t : Token) : (p.keep t).name = p.name := by
  rw [keep]
  split <;> rfl

lemma Spelled.feed {p : Partial} {us : List Token} {o t : Token} {s : State} (ho : o.kind = .call)
    (hplain : o.isPlain = true) (hname : p.name = o.text) (h : p.Spelled us)
    (hfeed : p.feed t = .ok s) : s.Spelled (o :: (us ++ [t])) := by
  cases fed_of_feed hfeed with
  | kept depth =>
    exact .opened ho hplain (by rw [← hname, ← p.keep_name t]) ((h.keep t).nested depth)
  | named hkind hdotless hpending =>
    refine .opened ho hplain hname ?_
    cases h with
    | settled hxs => exact .settled (hxs.concat (.plain hkind hdotless))
    | pending => cases hpending
  | assigned hkind hq => exact .opened ho hplain hname (h.assign hq hkind)
  | separated hkind hxs =>
    exact .opened ho hplain hname (.settled ((h.settle hxs).concat (.comma hkind)))
  | closed hkind hxs => exact hname ▸ .closed ho hplain (h.settle hxs) hkind

end Partial

/-- Every step adds its token to those that are spelled. -/
lemma State.Spelled.feed {s s' : State} {us : List Token} {t : Token} (h : s.Spelled us)
    (hfeed : s.feed t = .ok s') : s'.Spelled (us ++ [t]) := by
  cases h with
  | start =>
    rw [State.feed, begin] at hfeed
    split at hfeed
    next hcall =>
      cases hfeed
      exact .opened hcall.1 hcall.2 rfl (.settled .nil)
    next =>
      split at hfeed
      next hempty =>
        cases hfeed
        exact .empty hempty.1 hempty.2
      next => cases hfeed
  | opened ho hplain hname hp => exact hp.feed ho hplain hname hfeed
  | empty | closed => cases hfeed

/-! ### Pieces with commas between them are parameters -/

/-- What the tokens of the remaining parameters are: if no parameter may come next, either none are
left or a comma comes first. -/
def Follows (us : List Token) (ps : List Parameter) : Bool → Prop
  | true => Parameters us ps
  | false => us = [] ∧ ps = [] ∨ ∃ c vs, us = c :: vs ∧ c.kind = .comma ∧ Parameters vs ps

lemma Follows.parameters {p : Parameter} {ps : List Parameter} {us vs : List Token}
    (hp : p.Written us) (h : Follows vs ps false) : Parameters (us ++ vs) (p :: ps) := by
  obtain ⟨rfl, rfl⟩ | ⟨c, vs, rfl, hc, hps⟩ := h
  · rw [List.append_nil]
    exact .last hp
  · exact .more hp hc hps

lemma follows_of_collect {name : String} {xs : List Piece} {us : List Token} (hxs : Spells xs us)
    {expecting : Bool} {done params : List Parameter} (hdone : (done.map (·.name)).Nodup)
    (h : collect name expecting done xs = .ok params) :
    ∃ ps, params = done ++ ps ∧ (params.map (·.name)).Nodup ∧ Follows us ps expecting := by
  induction hxs generalizing expecting done with
  | nil =>
    cases h
    refine ⟨[], by simp, hdone, ?_⟩
    cases expecting with
    | true => exact .none
    | false => exact .inl ⟨rfl, rfl⟩
  | @cons x xs us vs hx _ ih =>
    rw [collect.eq_def] at h
    cases x with
    | other => cases h
    | comma c =>
      cases expecting with
      | true => cases h
      | false =>
        obtain ⟨ps, hparams, hnodup, hps⟩ := ih hdone h
        cases hx with
        | comma hc => exact ⟨ps, hparams, hnodup, .inr ⟨c, vs, rfl, hc, hps⟩⟩
    | param q d =>
      cases expecting with
      | false => cases h
      | true =>
        dsimp only at h
        rw [if_pos rfl] at h
        split at h
        next => cases h
        next hfresh =>
          have hnodup : ((done ++ [⟨q.text, d⟩] : List Parameter).map (·.name)).Nodup := by
            rw [List.map_append]
            exact List.nodup_append.2 ⟨hdone, by simp, by simpa using hfresh⟩
          obtain ⟨ps, hparams, hnodup, hps⟩ := ih hnodup h
          exact ⟨⟨q.text, d⟩ :: ps, by simpa using hparams, hnodup, hps.parameters hx.written⟩

lemma State.Spelled.finish {place : Place} {s : State} {us : List Token} {sig : Signature}
    (h : s.Spelled us) (hfinish : s.finish place = .ok sig) : Written us sig := by
  cases h with
  | start | opened => cases hfinish
  | empty hkind hplain =>
    cases hfinish
    exact .empty hkind hplain
  | closed ho hplain hxs hc =>
    obtain ⟨params, hcollect, hfinish⟩ := ok_of_bind hfinish
    cases hfinish
    obtain ⟨ps, rfl, hnodup, hps⟩ := follows_of_collect hxs (by simp) hcollect
    exact .call ho hplain hps hc hnodup

lemma written_of_ofTokens {place : Place} {ts : List Token} {sig : Signature}
    (h : ofTokens place ts = .ok sig) : Written (Token.significant ts) sig := by
  obtain ⟨s, hs, h⟩ := ok_of_bind h
  have hspelled := foldlM_tracks (fun us (s : State) => s.Spelled us)
    (fun _ _ _ _ => State.Spelled.feed) .start hs
  exact hspelled.finish h

/-! ### Parameters are fed to the reader -/

/-- Behind a parameter the reader has it as a piece as soon as something ends it. -/
lemma feed_parameter {param : Parameter} {us : List Token} (h : param.Written us) :
    ∃ q d, param = ⟨q.text, d⟩ ∧ ∀ name xs, ∃ p : Partial,
      us.foldlM State.feed (.opened ⟨name, 0, xs, none⟩) = .ok (.opened p) ∧ p.name = name ∧
        p.depth = 0 ∧ ∀ t, p.settle t = .ok (xs ++ [.param q d]) := by
  have hname {q : Token} (hkind : q.kind = .path) (hplain : q.isPlain = true) (name : String)
      (xs : List Piece) : State.feed (.opened ⟨name, 0, xs, none⟩) q =
        .ok (.opened ⟨name, 0, xs ++ [.param q none], none⟩) := by
    simp [State.feed, Partial.feed, hkind, hplain]
  cases h with
  | @plain q hkind hplain =>
    refine ⟨q, none, rfl, fun name xs => ⟨⟨name, 0, xs ++ [.param q none], none⟩, ?_, rfl, rfl,
      fun _ => rfl⟩⟩
    rw [List.foldlM_cons, bind_eq_of_ok (hname hkind hplain name xs)]
    rfl
  | @default q a ds e hkind hplain ha hds =>
    refine ⟨q, _, rfl, fun name xs => ⟨⟨name, 0, xs, some (q, ds)⟩, ?_, rfl, rfl, ?_⟩⟩
    · have hassign : State.feed (.opened ⟨name, 0, xs ++ [.param q none], none⟩) a =
          .ok (.opened ⟨name, 0, xs, some (q, [])⟩) := by
        simp [State.feed, Partial.feed, Partial.assignable?, ha]
      rw [List.foldlM_cons, bind_eq_of_ok (hname hkind hplain name xs), List.foldlM_cons,
        bind_eq_of_ok hassign, foldlM_feed_of_nest rfl (nested_of_ofTokens hds)]
      rfl
    · intro t
      cases ds with
      | nil =>
        obtain ⟨first, _, hnil, _⟩ := (Expr.derives_of_ofTokens hds).expr_cons
        cases hnil
      | cons first ds =>
        rw [Partial.settle]
        dsimp only
        rw [bind_eq_of_ok hds]
        rfl

lemma collect_param {q : Token} {d : Option Default} {name : String} {done ps : List Parameter}
    (h : ((done ++ ⟨q.text, d⟩ :: ps).map (·.name)).Nodup) (xs : List Piece) :
    collect name true done (.param q d :: xs) =
      collect name false (done ++ [⟨q.text, d⟩]) xs := by
  have hfresh : done.any (·.name == q.text) = false := by
    rw [List.map_append, List.map_cons, List.nodup_append] at h
    simpa using fun (p : Parameter) (hp : p ∈ done) =>
      h.2.2 p.name (List.mem_map_of_mem hp) q.text List.mem_cons_self
  rw [collect, if_pos rfl, hfresh]
  rfl

/-- Parameters and the closing parenthesis are fed, and the pieces found are the parameters. -/
lemma feed_parameters {us : List Token} {ps : List Parameter} (h : Parameters us ps) {c : Token}
    (hc : c.kind = .parenClose) (name : String) (xs : List Piece) :
    ∃ ys, (us ++ [c]).foldlM State.feed (.opened ⟨name, 0, xs, none⟩) =
        .ok (.closed name (xs ++ ys)) ∧
      ∀ done : List Parameter, ((done ++ ps).map (·.name)).Nodup →
        collect name true done ys = .ok (done ++ ps) := by
  induction h generalizing xs with
  | none =>
    refine ⟨[], ?_, fun done _ => by rw [List.append_nil]; rfl⟩
    simp [State.feed, Partial.feed, Partial.settle, hc]
  | last hp =>
    obtain ⟨q, d, rfl, hfeed⟩ := feed_parameter hp
    obtain ⟨p, hus, rfl, hdepth, hsettle⟩ := hfeed name xs
    refine ⟨[.param q d], ?_, fun done hnodup => by rw [collect_param hnodup]; rfl⟩
    rw [List.foldlM_append, bind_eq_of_ok hus]
    simp [State.feed, Partial.feed, hc, hdepth, hsettle]
  | @more s us vs _ ps hp hs _ ih =>
    obtain ⟨q, d, rfl, hfeed⟩ := feed_parameter hp
    obtain ⟨p, hus, rfl, hdepth, hsettle⟩ := hfeed name xs
    obtain ⟨ys, hvs, hcollect⟩ := ih (xs ++ [.param q d] ++ [.comma s])
    refine ⟨.param q d :: .comma s :: ys, ?_, fun done hnodup => ?_⟩
    · have hcomma : State.feed (.opened p) s =
          .ok (.opened ⟨p.name, 0, xs ++ [.param q d] ++ [.comma s], none⟩) := by
        simp [State.feed, Partial.feed, hs, hdepth, hsettle]
      rw [List.append_assoc, List.foldlM_append, bind_eq_of_ok hus, List.cons_append,
        List.foldlM_cons, bind_eq_of_ok hcomma, hvs]
      simp
    · rw [collect_param hnodup, collect, if_neg (by simp), hcollect _ (by simpa using hnodup)]
      simp

/-- What the grammar derives is read. -/
lemma Written.ofTokens_eq {ts : List Token} {sig : Signature}
    (h : Written (Token.significant ts) sig) (place : Place) : ofTokens place ts = .ok sig := by
  rw [ofTokens]
  generalize Token.significant ts = us at h
  cases h with
  | @empty o hkind hplain =>
    have hbegin : State.feed .start o = .ok (.closed o.text []) := by
      simp [State.feed, begin, hkind, hplain]
    rw [List.foldlM_cons, bind_eq_of_ok hbegin]
    rfl
  | @call o c us ps ho hplain hps hc hnodup =>
    have hbegin : State.feed .start o = .ok (.opened ⟨o.text, 0, [], none⟩) := by
      simp [State.feed, begin, ho, hplain]
    obtain ⟨xs, hfeed, hcollect⟩ := feed_parameters hps hc o.text []
    rw [List.foldlM_cons, bind_eq_of_ok hbegin, bind_eq_of_ok hfeed, State.finish,
      List.nil_append, bind_eq_of_ok (hcollect [] hnodup)]
    rfl

end Signature

/-- **The signature parser accepts exactly macro signatures.** Tokens are read as a signature if,
white space aside, they are written for it, and only then. While the tokens of a default are being
fed, whatever brackets, commas and equals signs are among them, the parameter does not end. -/
theorem signatures_exact (place : Place) (ts : List Token) :
    (∀ sig, Signature.ofTokens place ts = .ok sig ↔
      Signature.Written (Token.significant ts) sig) ∧
    ∀ (ds before : List Token) (e : Expr) (p : Signature.Partial) (q : Token),
      Expr.ofTokens ds = .ok e → before <+: ds → p.depth = 0 → p.pending = some (q, []) →
      ∃ depth, before.foldlM Signature.State.feed (.opened p) =
        .ok (.opened { p with depth := depth, pending := some (q, before) }) :=
  ⟨fun _ => ⟨Signature.written_of_ofTokens, fun h => h.ofTokens_eq place⟩,
    fun _ _ _ _ _ h hbefore hdepth hp => Signature.feed_default h hbefore hdepth hp⟩

end Stencil
