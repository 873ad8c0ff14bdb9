import Stencil.Proofs.Reach
import Stencil.Proofs.Translation

/-!
A program beside itself. A translation of a program into itself (`Translation.Code` of the program
and the program) says something of each piece of its code. That this is kept up in the course of a
run is `Translation.Lawful.part`: all values that come up carry such code, closed over parameters
that its place fits, and all code runs with such parameters (`Translation.Steady`). So whatever is
said of the code of a program holds wherever the code gets to while the program runs.
-/

namespace Stencil

/-- The default of a parameter that corresponds to itself does so too. -/
lemma Param.Rel.default_itself {ref : Expr → Expr → Prop} {p : Param}
    (h : Param.Rel ref p p) {e : Expr} (he : p.default = some e) : Expr.Rel ref e e := by
  have hdefault := h.default
  rw [he] at hdefault
  obtain ⟨hrel⟩ := hdefault
  exact hrel

namespace Expr.Rel

variable {ref : Expr → Expr → Prop} (href : ∀ {e e'}, ref e e' → e.IsReference)
  {t place c : Expr} {name : String} {es as : List Expr} {entries ks : List (String × Expr)}

include href

/-! ### Parts of expressions

An expression that is no reference corresponds to itself part by part. -/

lemma member_parts (h : Rel ref (.member t name) (.member t name)) : Rel ref t t := by
  cases h with
  | reference h => nomatch href h
  | member _ ht => exact ht

lemma index_parts (h : Rel ref (.index t place) (.index t place)) :
    Rel ref t t ∧ Rel ref place place := by
  cases h with
  | reference h => nomatch href h
  | index ht hplace => exact ⟨ht, hplace⟩

lemma list_parts (h : Rel ref (.list es) (.list es)) : ItemsRel ref es es := by
  cases h with
  | reference h => nomatch href h
  | list hes => exact hes

lemma map_parts (h : Rel ref (.map entries) (.map entries)) : EntriesRel ref entries entries := by
  cases h with
  | reference h => nomatch href h
  | map hes => exact hes

lemma call_parts (h : Rel ref (.call c as ks) (.call c as ks)) :
    Rel ref c c ∧ ItemsRel ref as as ∧ EntriesRel ref ks ks := by
  cases h with
  | reference h => nomatch href h
  | call hc has hks => exact ⟨hc, has, hks⟩

end Expr.Rel

namespace Translation

variable {T : Translation} {E : T.Env}

/-! ### Pieces of code -/

/-- The first instruction and the others correspond by themselves. -/
lemma Code.uncons {i i' : Instr} {is is' : List Instr} (h : T.Code E (i :: is) (i' :: is')) :
    T.Code E [i] [i'] ∧ T.Code E is is' := by
  generalize hjs : i' :: is' = js at h
  cases h with
  | text s h =>
    cases hjs
    exact ⟨.text s (.nil E), h⟩
  | output he h =>
    cases hjs
    exact ⟨.output he (.nil E), h⟩
  | define target hparams hfixed hbody h =>
    cases hjs
    exact ⟨.define target hparams hfixed hbody (.nil E), h⟩
  | callBlock source source' hbody he h =>
    cases hjs
    exact ⟨.callBlock source source' hbody he (.nil E), h⟩
  | bindSpace handle hmembers hmarkup h =>
    cases hjs
    exact ⟨.bindSpace handle hmembers hmarkup (.nil E), h⟩

/-- A namespace corresponds to one of the translated name, with corresponding code. -/
lemma Code.space {handle handle' : String} {members members' markup markup' : List Instr}
    (h : T.Code E [.bindSpace handle members markup] [.bindSpace handle' members' markup']) :
    handle' = T.name handle ∧ T.Code (T.inSpace E) members members' ∧
      T.Code (T.inSpace E) markup markup' := by
  generalize hjs : [Instr.bindSpace handle' members' markup'] = js at h
  cases h with
  | bindSpace _ hmembers hmarkup _ =>
    cases hjs
    exact ⟨rfl, hmembers, hmarkup⟩

/-! ### Moments -/

variable (T) in
/-- All values in the task correspond to themselves, and so does its code, which stands at a place
that fits the parameters in scope. -/
def Own : Task → Prop
  | .eval scope e => ∃ E, T.fits E scope ∧ Expr.Rel (T.ref E) e e ∧ Scope.Rel T.code scope scope
  | .items scope es =>
    ∃ E, T.fits E scope ∧ Expr.ItemsRel (T.ref E) es es ∧ Scope.Rel T.code scope scope
  | .entries scope es =>
    ∃ E, T.fits E scope ∧ Expr.EntriesRel (T.ref E) es es ∧ Scope.Rel T.code scope scope
  | .call target args kwargs => T.value target target ∧ List.Forall₂ T.value args args ∧
    Option.Rel (Dict.Rel T.value) kwargs kwargs
  | .display v => T.value v v
  | .instr scope i => ∃ E, T.fits E scope ∧ T.Code E [i] [i] ∧ Scope.Rel T.code scope scope
  | .code scope is => ∃ E, T.fits E scope ∧ T.Code E is is ∧ Scope.Rel T.code scope scope
  | .invoke i => T.Invocations i i
  | .defaults scope ps vars => ∃ E m, T.fits E scope ∧ (∀ p ∈ ps, p ∈ m.params) ∧
    List.Forall₂ (Param.Rel (T.ref (T.enter E m))) ps ps ∧ m.Binds scope vars ∧
    Dict.Rel T.value vars vars ∧ Scope.Rel T.code scope scope

variable (T) in
/-- Task and renderer correspond to themselves. -/
structure Steady (m : Moment) : Prop where
  renderer : T.Agree m.renderer m.renderer
  task : T.Own m.task

namespace Lawful

variable (hT : T.Lawful)

include hT

section Steps

variable {s t : Renderer} {scope : Scope} {r : Nat} (hs : T.Agree s s) (hfits : T.fits E scope)
  (hscope : Scope.Rel T.code scope scope)

include hs hfits hscope

/-- An expression gives a value that corresponds to itself. -/
lemma ok_eval {e : Expr} (he : Expr.Rel (T.ref E) e e) {v : Value}
    (h : eval (invoke r) scope e s = .ok v t) : T.value v v ∧ T.Agree t t :=
  (hT.eval_sim (hT.invoke_sim r) he hfits hscope).of_ok hs h

lemma ok_evalItems {es : List Expr} (hes : Expr.ItemsRel (T.ref E) es es) {vs : List Value}
    (h : evalItems (invoke r) scope es s = .ok vs t) : List.Forall₂ T.value vs vs ∧ T.Agree t t :=
  (evalItems_sim (hT.evalSim (hT.invoke_sim r) hfits hscope) hes).of_ok hs h

lemma ok_evalEntries {es : List (String × Expr)} (hes : Expr.EntriesRel (T.ref E) es es)
    {vs : List (String × Value)} (h : evalEntries (invoke r) scope es s = .ok vs t) :
    List.Forall₂ (Dict.EntryRel T.value) vs vs ∧ T.Agree t t :=
  (evalEntries_sim (hT.evalSim (hT.invoke_sim r) hfits hscope) hes).of_ok hs h

/-- So does the expression of a call block. -/
lemma ok_evalWrapped {body : List Instr} {e : Expr} (hbody : T.Code E body body)
    (he : Expr.Rel (T.ref E) e e) {v : Value}
    (h : evalWrapped (invoke r) scope body e s = .ok v t) :
    T.value v v ∧ T.Agree t t :=
  (hT.evalWrapped_sim (hT.invoke_sim r) hbody he hfits hscope).of_ok hs h

/-- An instruction leaves a renderer that corresponds to itself. -/
lemma ok_execInstr {i : Instr} (hi : T.Code E [i] [i]) {out : String}
    (h : execInstr (invoke r) scope i s = .ok out t) : T.Agree t t := by
  have hexec : exec (invoke r) scope [i] s = .ok (out ++ "") t := by
    rw [exec, Run.bind_of_ok h]
    rfl
  exact ((hT.exec_sim (hT.invoke_sim r) hi hfits hscope).of_ok hs hexec).2

/-- The parameters of a macro get values that correspond to themselves. -/
lemma ok_bindParams {m : Macro} (hm : T.Macros E m m) {args : List Value}
    (hargs : List.Forall₂ T.value args args) {vars : Dict Value}
    (h : bindParams (invoke r) m scope args s = .ok vars t) :
    Dict.Rel T.value vars vars ∧ T.Agree t t :=
  (hT.bindParams_sim (hT.invoke_sim r) hm hargs hfits hscope).of_ok hs h

omit hfits hscope

/-- A renderer in which a call is carried out corresponds to itself. -/
lemma calling {kwargs : Option (Dict Value)}
    (hkwargs : Option.Rel (Dict.Rel T.value) kwargs kwargs) :
    T.Agree (s.calling kwargs) (s.calling kwargs) := by
  have hdeeper : T.Agree s.deeper s.deeper := ⟨hs.context, hs.symbols, rfl⟩
  have hset := hdeeper.set kwargsName (keywordEntry_rel hkwargs)
  rwa [hT.kwargs] at hset

/-- So does one with another entry for the caller. -/
lemma setCaller {o : Option Value} (ho : Option.Rel T.value o o) :
    T.Agree (s.mapContext (·.set callerName o)) (s.mapContext (·.set callerName o)) := by
  have hset := hs.set callerName ho
  rwa [hT.caller] at hset

end Steps

variable (href : ∀ {E e e'}, T.ref E e e' → e.IsReference)

include href

/-- What corresponds to itself consists of what corresponds to itself. -/
lemma part {a b : Moment} (ha : T.Steady a) (h : Moment.Part a b) : T.Steady b := by
  obtain ⟨hs, ht⟩ := ha
  cases h with
  | target =>
    obtain ⟨E, hfits, he, hscope⟩ := ht
    exact ⟨hs, E, hfits, he.member_parts href, hscope⟩
  | indexed =>
    obtain ⟨E, hfits, he, hscope⟩ := ht
    exact ⟨hs, E, hfits, (he.index_parts href).1, hscope⟩
  | place hv =>
    obtain ⟨E, hfits, he, hscope⟩ := ht
    obtain ⟨ht, hplace⟩ := he.index_parts href
    exact ⟨(hT.ok_eval hs hfits hscope ht hv).2, E, hfits, hplace, hscope⟩
  | list =>
    obtain ⟨E, hfits, he, hscope⟩ := ht
    exact ⟨hs, E, hfits, he.list_parts href, hscope⟩
  | map =>
    obtain ⟨E, hfits, he, hscope⟩ := ht
    exact ⟨hs, E, hfits, he.map_parts href, hscope⟩
  | callee =>
    obtain ⟨E, hfits, he, hscope⟩ := ht
    exact ⟨hs, E, hfits, (he.call_parts href).1, hscope⟩
  | args hv =>
    obtain ⟨E, hfits, he, hscope⟩ := ht
    obtain ⟨hc, has, _⟩ := he.call_parts href
    exact ⟨(hT.ok_eval hs hfits hscope hc hv).2, E, hfits, has, hscope⟩
  | kwargs hv hvs =>
    obtain ⟨E, hfits, he, hscope⟩ := ht
    obtain ⟨hc, has, hks⟩ := he.call_parts href
    have hs₁ := (hT.ok_eval hs hfits hscope hc hv).2
    exact ⟨(hT.ok_evalItems hs₁ hfits hscope has hvs).2, E, hfits, hks, hscope⟩
  | call hv hvs hnamed =>
    obtain ⟨E, hfits, he, hscope⟩ := ht
    obtain ⟨hc, has, hks⟩ := he.call_parts href
    obtain ⟨htarget, hs₁⟩ := hT.ok_eval hs hfits hscope hc hv
    obtain ⟨hargs, hs₂⟩ := hT.ok_evalItems hs₁ hfits hscope has hvs
    obtain ⟨hentries, hs₃⟩ := hT.ok_evalEntries hs₂ hfits hscope hks hnamed
    exact ⟨hs₃, htarget, hargs, keywords_rel hks hentries⟩
  | item =>
    obtain ⟨E, hfits, hes, hscope⟩ := ht
    cases hes with
    | cons he _ => exact ⟨hs, E, hfits, he, hscope⟩
  | items hv =>
    obtain ⟨E, hfits, hes, hscope⟩ := ht
    cases hes with
    | cons he hes => exact ⟨(hT.ok_eval hs hfits hscope he hv).2, E, hfits, hes, hscope⟩
  | entry =>
    obtain ⟨E, hfits, hes, hscope⟩ := ht
    cases hes with
    | cons _ he _ => exact ⟨hs, E, hfits, he, hscope⟩
  | entries hv =>
    obtain ⟨E, hfits, hes, hscope⟩ := ht
    cases hes with
    | cons _ he hes => exact ⟨(hT.ok_eval hs hfits hscope he hv).2, E, hfits, hes, hscope⟩
  | closure _ =>
    obtain ⟨htarget, hargs, hkwargs⟩ := ht
    cases htarget with
    | closure _ _ hm hscope => exact ⟨hT.calling hs hkwargs, .call hm hscope hargs⟩
  | block _ =>
    obtain ⟨htarget, _, hkwargs⟩ := ht
    cases htarget with
    | block _ _ hb ho hscope => exact ⟨hT.calling hs hkwargs, .block hb ho hscope⟩
  | space _ =>
    cases ht with
    | shown _ hb hscope => exact ⟨⟨hs.context, hs.symbols, rfl⟩, .markup hb hscope⟩
  | output =>
    obtain ⟨E, hfits, hi, hscope⟩ := ht
    cases hi with
    | output he _ => exact ⟨hs, E, hfits, he, hscope⟩
  | displayed hv =>
    obtain ⟨E, hfits, hi, hscope⟩ := ht
    cases hi with
    | output he _ =>
      obtain ⟨hvalue, hs₁⟩ := hT.ok_eval hs hfits hscope he hv
      exact ⟨hs₁, hvalue⟩
  | @wrapped _ _ _ _ _ s =>
    obtain ⟨E, hfits, hi, hscope⟩ := ht
    cases hi with
    | callBlock _ _ hbody he _ =>
      have houter := hs.context callerName
      rw [hT.caller] at houter
      have hblock := Value.Rel.block s.fresh s.fresh (R := T.code) ⟨E, hfits, hbody⟩ houter hscope
      exact ⟨hT.setCaller (hs.renew _ _) (.some hblock), E, hfits, he, hscope⟩
  | wrappedDisplayed hv =>
    obtain ⟨E, hfits, hi, hscope⟩ := ht
    cases hi with
    | callBlock _ _ hbody he _ =>
      obtain ⟨hvalue, hs₁⟩ := hT.ok_evalWrapped hs hfits hscope hbody he hv
      exact ⟨hs₁, hvalue⟩
  | @members _ _ handle =>
    obtain ⟨E, hfits, hi, hscope⟩ := ht
    obtain ⟨hname, hmembers, _⟩ := hi.space
    have hopen := hs.openSpace handle
    rw [← hname] at hopen
    exact ⟨hopen, _, hT.inSpace hfits, hmembers, hscope⟩
  | first =>
    obtain ⟨E, hfits, his, hscope⟩ := ht
    exact ⟨hs, E, hfits, his.uncons.1, hscope⟩
  | rest hi =>
    obtain ⟨E, hfits, his, hscope⟩ := ht
    exact ⟨hT.ok_execInstr hs hfits hscope his.uncons.1 hi, E, hfits, his.uncons.2, hscope⟩
  | params =>
    cases ht with
    | call hm hscope hargs =>
      obtain ⟨E, hfits, hm⟩ := hm
      exact ⟨hs, E, _, hfits, fun _ hp => hp, hm.params, .arguments _,
        Dict.rel_ofList (positional_rel hm.params hargs), hscope⟩
  | body hb =>
    cases ht with
    | call hm hscope hargs =>
      obtain ⟨E, hfits, hm⟩ := hm
      obtain ⟨hvars, hs₁⟩ := hT.ok_bindParams hs hfits hscope hm hargs hb
      exact ⟨hs₁.eraseAll (List.forall_mem_map.2 hm.fixed), _,
        hT.enter hfits (binds_of_bindParams hb), hm.body, .cons hvars hscope⟩
  | content =>
    cases ht with
    | block hb ho hscope =>
      obtain ⟨E, hfits, hb⟩ := hb
      exact ⟨hT.setCaller hs ho, E, hfits, hb, hscope⟩
  | markup =>
    cases ht with
    | markup hb hscope =>
      obtain ⟨E, hfits, hb⟩ := hb
      exact ⟨hs, E, hfits, hb, hscope⟩
  | default hd _ =>
    obtain ⟨E, m, hfits, _, hps, hbinds, hvars, hscope⟩ := ht
    cases hps with
    | cons hp _ =>
      exact ⟨hs, _, hT.enter hfits hbinds, hp.default_itself hd, .cons hvars hscope⟩
  | filled hd _ hv =>
    obtain ⟨E, m, hfits, hmem, hps, hbinds, hvars, hscope⟩ := ht
    rw [List.forall_mem_cons] at hmem
    cases hps with
    | cons hp hps =>
      obtain ⟨hvalue, hs₁⟩ := hT.ok_eval hs (hT.enter hfits hbinds) (.cons hvars hscope)
        (hp.default_itself hd) hv
      exact ⟨hs₁, E, m, hfits, hmem.2, hps, hbinds.default hmem.1 hd hv, hvars.insert _ hvalue,
        hscope⟩
  | given _ =>
    obtain ⟨E, m, hfits, hmem, hps, hbinds, hvars, hscope⟩ := ht
    cases hps with
    | cons _ hps =>
      exact ⟨hs, E, m, hfits, fun p hp => hmem p (List.mem_cons_of_mem _ hp), hps, hbinds, hvars,
        hscope⟩

/-- All moments of a run of a program that corresponds to itself do so too. -/
lemma steady_of_reaches {p : Program} (hp : T.Code E p.instrs p.instrs) (hE : T.fits E [])
    {data : Json} {context : Context} (hdata : Context.ofJson data = .ok context)
    (hname : ∀ k, T.name k = k) {fresh : Nat} {m : Moment}
    (h : (Moment.opening p context fresh).Reaches m) : T.Steady m :=
  h.invariant ⟨.start hdata (fun k _ => hname k) fresh, E, hE, hp, .nil⟩ (hT.part href)

end Lawful

end Translation

end Stencil
