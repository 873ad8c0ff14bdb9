import Stencil.Proofs.Course
import Stencil.Proofs.Macros
import Stencil.Proofs.References

/-!
Lexical hygiene. A parameter that code refers to belongs to a macro around it in the same file, and
at run time it has its value from a call of that macro and of no other, whatever is imported where
(`parameters_lexical`).

The first half is about code. Compiling leaves no variable whose place has not been determined, and
refers to a parameter only inside a macro of the same file that has it (`Instr.Scoped`). The
parameters known inside a macro are its own and, if it is written in the same file as the code
around it, those known there (`Macro.visible`).

The second half is about runs. `Program.Stands` says which macros of one file are around a piece of
code in a program, and `Scope.Fits` that the innermost parameters in scope come from calls of these
macros, one from each. What is in scope beyond them, such as the parameters of an importing file
that an imported macro has been closed over, is never reached.
-/

namespace Stencil

/-! ### Known parameters -/

/-- A reference to one of the parameters, or to something other than a parameter. -/
inductive Expr.Known (params : List String) : Expr → Prop
  | param {name : String} : name ∈ params → Known params (.param name)
  | context (name : String) : Known params (.context name)
  | symbol (key : Symbol) : Known params (.symbol key)

/-- The expression refers to no parameters other than the given ones, and to no variable. -/
def Expr.Closed (params : List String) (e : Expr) : Prop :=
  ∀ r ∈ e.references, r.Known params

/-- The parameters known inside a macro that stands in a file where the given ones are known. -/
def Macro.visible (m : Macro) (file : String) (params : List String) : List String :=
  m.params.map (·.name) ++ if m.file = file then params else []

/-- All expressions in the instruction, in a file and where the parameters are known, are closed. -/
inductive Instr.Scoped : String → List String → Instr → Prop
  | text {file : String} {params : List String} (s : String) : Scoped file params (.text s)
  | output {file : String} {params : List String} {e : Expr} : e.Closed params →
      Scoped file params (.output e)
  | define {file : String} {params : List String} {m : Macro} (target : Binding) :
      (∀ p ∈ m.params, ∀ e, p.default = some e → e.Closed (m.visible file params)) →
      (∀ i ∈ m.body, Scoped m.file (m.visible file params) i) →
        Scoped file params (.define target m)
  | callBlock {file : String} {params : List String} {body : List Instr} {e : Expr}
      (source : String) : (∀ i ∈ body, Scoped file params i) → e.Closed params →
      Scoped file params (.callBlock body e source)
  | bindSpace {file : String} {params : List String} {members markup : List Instr}
      (handle : String) : (∀ i ∈ members, Scoped file [] i) → (∀ i ∈ markup, Scoped file [] i) →
      Scoped file params (.bindSpace handle members markup)

section Known

variable {params params' : List String} {file file' : String} {e r : Expr} {i : Instr}

lemma Expr.Known.isReference (h : r.Known params) : r.IsReference := by
  cases h with
  | param _ => exact .param _
  | context name => exact .context name
  | symbol key => exact .symbol key

lemma Expr.Known.mono (h : r.Known params) (hsub : params ⊆ params') : r.Known params' := by
  cases h with
  | param hn => exact .param (hsub hn)
  | context name => exact .context name
  | symbol key => exact .symbol key

lemma Expr.Closed.mono (h : e.Closed params) (hsub : params ⊆ params') : e.Closed params' :=
  fun r hr => (h r hr).mono hsub

/-- More may be known. -/
lemma Instr.Scoped.mono (h : i.Scoped file params) (hsub : params ⊆ params') :
    i.Scoped file params' := by
  induction h generalizing params' with
  | text s => exact .text s
  | output he => exact .output (he.mono hsub)
  | @define file params m target hdefaults _ ihbody =>
    have hvisible : m.visible file params ⊆ m.visible file params' := by
      intro name hname
      rw [Macro.visible, List.mem_append] at hname ⊢
      refine hname.imp_right fun hname => ?_
      split at hname
      next hfile =>
        rw [if_pos hfile]
        exact hsub hname
      next => nomatch hname
    exact .define target (fun p hp e he => (hdefaults p hp e he).mono hvisible)
      fun i hi => ihbody i hi hvisible
  | callBlock source _ he ihbody =>
    exact .callBlock source (fun i hi => ihbody i hi hsub) (he.mono hsub)
  | bindSpace handle hmembers hmarkup => exact .bindSpace handle hmembers hmarkup

/-- Where no parameters are known, it does not matter in which file the code is. -/
lemma Instr.Scoped.elsewhere (h : i.Scoped file []) (file' : String) : i.Scoped file' [] := by
  generalize hnone : ([] : List String) = none at h
  induction h with
  | text s => exact .text s
  | output he => exact .output (hnone ▸ he)
  | @define file params m target hdefaults hbody =>
    subst hnone
    have hvisible : m.visible file [] = m.visible file' [] := by
      rw [Macro.visible, Macro.visible, ite_self, ite_self]
    rw [hvisible] at hdefaults hbody
    exact .define target hdefaults hbody
  | callBlock source _ he ihbody =>
    exact .callBlock source (fun i hi => ihbody i hi hnone) (hnone ▸ he)
  | bindSpace handle _ _ ihmembers ihmarkup =>
    exact .bindSpace handle (fun i hi => ihmembers i hi rfl) fun i hi => ihmarkup i hi rfl

/-- What is said of an imported file holds wherever it is imported. -/
lemma Instr.Scoped.imported (h : i.Scoped file []) : i.Scoped file' params :=
  (h.elsewhere file').mono (List.nil_subset params)

end Known

/-! ### Linking -/

/-- The function replaces entries of the context only, and not by parameters. -/
structure Expr.Moves (f : Expr → Option Expr) : Prop where
  other : ∀ {e}, (∀ name, e ≠ .context name) → f e = none
  entry : ∀ {name e}, f (.context name) = some e → e.Closed []

section Moves

variable {f : Expr → Option Expr} {params : List String} {file : String}

lemma Expr.Moves.relinked (hf : Moves f) : Relinked f := by
  intro e he
  refine hf.other ?_
  rintro name rfl
  exact he (.context name)

lemma Exports.moves_memberOf (x : Exports) (handle : String) : Expr.Moves (x.memberOf handle) where
  other {e} he := by
    cases e with
    | context name => exact absurd rfl (he name)
    | _ => rfl
  entry {name e} he := by
    simp only [memberOf] at he
    split at he
    · cases he
      simpa [Expr.Closed, Expr.references] using Expr.Known.context handle
    · cases he

lemma Exports.moves_symbolOf (x : Exports) (selected : List String) :
    Expr.Moves (x.symbolOf selected) where
  other {e} he := by
    cases e with
    | context name => exact absurd rfl (he name)
    | _ => rfl
  entry {name e} he := by
    simp only [symbolOf] at he
    split at he
    · cases he
      simpa [Expr.Closed, Expr.references] using Expr.Known.symbol (x.key name)
    · cases he

lemma Expr.Closed.replace {e : Expr} (hf : Moves f) (h : e.Closed params) :
    (e.replace f).Closed params := by
  intro r hr
  rw [references_replace hf.relinked] at hr
  obtain ⟨q, hq, hr⟩ := List.mem_flatMap.1 hr
  have hknown := h q hq
  cases hfq : f q with
  | none =>
    rw [hknown.isReference.replace_eq hfq, hknown.isReference.references_eq,
      List.mem_singleton] at hr
    exact hr ▸ hknown
  | some e' =>
    rw [Expr.replace_of_some hfq] at hr
    cases hknown with
    | context name => exact (hf.entry hfq r hr).mono (List.nil_subset params)
    | param _ =>
      rw [hf.other (by simp)] at hfq
      cases hfq
    | symbol key =>
      rw [hf.other (by simp)] at hfq
      cases hfq

/-- Linking does not bring in parameters. -/
lemma Instr.Scoped.replace {i : Instr} (hf : Expr.Moves f) (h : i.Scoped file params) :
    (i.replace f).Scoped file params := by
  induction h with
  | text s => exact .text s
  | output he => exact .output (he.replace hf)
  | @define file params m target hdefaults _ ihbody =>
    obtain ⟨name, ps, body, written⟩ := m
    have hvisible : (Macro.mk name (ps.map (·.replace f)) (replaceAll f body) written).visible file
        params = (Macro.mk name ps body written).visible file params := by
      rw [Macro.visible, Macro.visible, List.map_map]
      rfl
    refine .define target (fun p hp e he => ?_) fun i hi => ?_
    · obtain ⟨q, hq, rfl⟩ := List.mem_map.1 hp
      obtain ⟨d, hd, rfl⟩ := Option.map_eq_some_iff.1 he
      exact hvisible ▸ (hdefaults q hq d hd).replace hf
    · obtain ⟨j, hj, rfl⟩ := mem_replaceAll.1 hi
      exact hvisible ▸ ihbody j hj
  | callBlock source _ he ihbody =>
    refine .callBlock source (fun i hi => ?_) (he.replace hf)
    obtain ⟨j, hj, rfl⟩ := mem_replaceAll.1 hi
    exact ihbody j hj
  | bindSpace handle hmembers hmarkup => exact .bindSpace handle hmembers hmarkup

lemma Instr.Scoped.rebind {i : Instr} {x : Exports} {target : String → Binding}
    (h : i.Scoped file params) : (x.rebind target i).Scoped file params := by
  cases h with
  | @define _ _ m place hdefaults hbody =>
    cases place with
    | context name =>
      rw [Exports.rebind]
      split
      · exact .define _ hdefaults hbody
      · exact .define _ hdefaults hbody
    | member handle name => exact .define _ hdefaults hbody
    | hidden key => exact .define _ hdefaults hbody
  | text s => exact .text s
  | output he => exact .output he
  | callBlock source hbody he => exact .callBlock source hbody he
  | bindSpace handle hmembers hmarkup => exact .bindSpace handle hmembers hmarkup

namespace Exports

variable {x : Exports} {fragments : List Fragment}
  (h : ∀ f ∈ fragments, ∀ i ∈ f.code, i.Scoped file params)

include h

lemma scoped_members {handle : String} :
    ∀ i ∈ x.members handle fragments, i.Scoped file params := by
  rw [members_eq_flatMap]
  exact forall_bound h fun hi => hi.rebind.replace (x.moves_memberOf handle)

lemma scoped_pick {selected : List String} :
    ∀ i ∈ x.pick selected fragments, i.Scoped file params := by
  rw [pick_eq_flatMap]
  exact forall_bound h fun hi => hi.rebind.replace (x.moves_symbolOf selected)

end Exports

end Moves

/-! ### Compiled code -/

/-- What a variable becomes is a parameter only if it is a known one. -/
lemma Expr.IsSource.closed_resolve {e : Expr} (h : e.IsSource) (params : List String) :
    (FileScope.resolve params e).Closed params := by
  intro r hr
  rw [FileScope.resolve, h.references_resolve] at hr
  obtain ⟨name, _, rfl⟩ := List.mem_map.1 hr
  rw [Expr.located]
  split
  next hn => exact .param (List.contains_iff_mem.1 hn)
  next => exact .context name

section Compiled

variable {u : FileScope}
  (himported : ∀ path name fs, u.imported path = .ok (name, fs) →
    ∀ i ∈ fs.flatMap Fragment.code, i.Scoped name [])

include himported

lemma FileScope.Compiles.scoped {params : List String} {ns : List Node} {is : List Instr}
    (h : u.Compiles params ns is) : ∀ i ∈ is, i.Scoped u.file.name params := by
  induction h with
  | nil => exact fun _ hi => nomatch hi
  | text s _ ih => exact List.forall_mem_cons.2 ⟨.text s, ih⟩
  | output ho _ ih => exact List.forall_mem_cons.2 ⟨.output (ho.closed_resolve _), ih⟩
  | @definition params _ _ _ body _ sig _ _ hsig _ _ ihbody ih =>
    let inner := sig.params.map (·.name) ++ params
    have hvisible : (Macro.mk sig.name (FileScope.params inner sig) body u.file.name).visible
        u.file.name params = inner := by
      rw [Macro.visible, if_pos rfl, FileScope.params, List.map_map]
      rfl
    refine List.forall_mem_cons.2 ⟨.define _ (fun p hp e he => ?_) fun i hi => ?_, ih⟩
    · obtain ⟨q, hq, rfl⟩ := List.mem_map.1 hp
      obtain ⟨d, hd, rfl⟩ := Option.map_eq_some_iff.1 he
      exact hvisible ▸ (hsig q hq d hd).closed_resolve inner
    · exact hvisible ▸ ihbody i hi
  | callBlock _ _ he _ _ ihbody ih =>
    exact List.forall_mem_cons.2 ⟨.callBlock _ ihbody (he.closed_resolve _), ih⟩
  | importAll _ _ hload _ ih =>
    have hcode := List.forall_mem_flatMap.1 (himported _ _ _ hload)
    refine List.forall_mem_cons.2 ⟨.bindSpace _ (fun i hi => ?_) fun i hi => ?_, ih⟩
    · exact (Exports.scoped_members hcode i hi).imported
    · exact (forall_markups (fun _ hmem => hcode _ hmem) i hi).imported
  | importNames _ _ hload _ _ ih =>
    have hcode := List.forall_mem_flatMap.1 (himported _ _ _ hload)
    exact List.forall_mem_append.2 ⟨fun i hi => (Exports.scoped_pick hcode i hi).imported, ih⟩

end Compiled

/-- All code of a program refers to parameters of macros around it in the same file only. -/
lemma Compiler.scoped_of_compile {c : Compiler} {entry : SourceFile} {p : Program}
    (hp : c.compile entry = .ok p) : ∀ i ∈ p.instrs, i.Scoped entry.name [] :=
  compile_induction (P := fun _ file is => ∀ i ∈ is, i.Scoped file [])
    (fun _ himported h => h.scoped himported) hp

/-! ### Places of code -/

/-- The macros around the code inside a macro, innermost first, as far as they are written in the
same file: the chain that is around the macro itself goes on, or starts anew in another file. -/
def Macro.enclose (m : Macro) (chain : List Macro) : List Macro :=
  if ∀ outer ∈ chain, outer.file = m.file then m :: chain else [m]

/-- The names of the parameters of all macros in the chain. -/
def Macro.allParams (chain : List Macro) : List String :=
  chain.flatMap fun m => m.params.map (·.name)

/-- The instruction is part of the program, and the macros are around it in the same file. The
members of a namespace and what it shows are the top level of another file. -/
inductive Program.Stands (p : Program) : List Macro → Instr → Prop
  | top {i : Instr} : i ∈ p.instrs → Stands p [] i
  | body {chain : List Macro} {target : Binding} {m : Macro} {i : Instr} :
      Stands p chain (.define target m) → i ∈ m.body → Stands p (m.enclose chain) i
  | content {chain : List Macro} {body : List Instr} {e : Expr} {source : String} {i : Instr} :
      Stands p chain (.callBlock body e source) → i ∈ body → Stands p chain i
  | member {chain : List Macro} {handle : String} {members markup : List Instr} {i : Instr} :
      Stands p chain (.bindSpace handle members markup) → i ∈ members → Stands p [] i
  | markup {chain : List Macro} {handle : String} {members markup : List Instr} {i : Instr} :
      Stands p chain (.bindSpace handle members markup) → i ∈ markup → Stands p [] i

/-- The reference occurs in the program, and the macros are around it in the same file. A default
is inside of the macro that it belongs to. -/
inductive Program.Reads (p : Program) : List Macro → Expr → Prop
  | output {chain : List Macro} {e r : Expr} : p.Stands chain (.output e) → r ∈ e.references →
      Reads p chain r
  | wrapped {chain : List Macro} {body : List Instr} {e r : Expr} {source : String} :
      p.Stands chain (.callBlock body e source) → r ∈ e.references → Reads p chain r
  | default {chain : List Macro} {target : Binding} {m : Macro} {q : Param} {e r : Expr} :
      p.Stands chain (.define target m) → q ∈ m.params → q.default = some e → r ∈ e.references →
      Reads p (m.enclose chain) r

/-- The macros are all written in the file. -/
def Macro.InFile (chain : List Macro) (file : String) : Prop :=
  ∀ m ∈ chain, m.file = file

section Places

variable {p : Program} {entry file : String} {chain : List Macro} {m : Macro} {i : Instr} {r : Expr}

lemma Macro.inFile_enclose (m : Macro) (chain : List Macro) : InFile (m.enclose chain) m.file := by
  rw [enclose]
  split
  next h => exact List.forall_mem_cons.2 ⟨rfl, h⟩
  next => exact List.forall_mem_singleton.2 rfl

/-- Inside a macro the parameters of all macros around in the same file are known. -/
lemma Macro.visible_eq (h : InFile chain file) :
    m.visible file (allParams chain) = allParams (m.enclose chain) := by
  rw [visible, enclose]
  split
  next hfile =>
    subst hfile
    have hchain : ∀ outer ∈ chain, outer.file = m.file := h
    rw [if_pos hchain]
    rfl
  next hfile =>
    split
    next hchain =>
      -- no macro is both in the file and in another one
      have hempty : chain = [] := List.eq_nil_iff_forall_not_mem.2 fun outer hmem =>
        hfile ((hchain outer hmem).symm.trans (h outer hmem))
      subst hempty
      rfl
    next => rw [allParams, List.flatMap_singleton, List.append_nil]

/-- Code refers to parameters of the macros around it only. -/
lemma Program.Stands.scoped (hp : ∀ i ∈ p.instrs, i.Scoped entry []) (h : p.Stands chain i) :
    ∃ file, Macro.InFile chain file ∧ i.Scoped file (Macro.allParams chain) := by
  induction h with
  | top hi => exact ⟨entry, fun _ hm => (nomatch hm), hp _ hi⟩
  | @body chain target m i _ hi ih =>
    obtain ⟨file, hfile, hscoped⟩ := ih
    cases hscoped with
    | define _ _ hbody =>
      rw [Macro.visible_eq hfile] at hbody
      exact ⟨m.file, m.inFile_enclose chain, hbody i hi⟩
  | content _ hi ih =>
    obtain ⟨file, hfile, hscoped⟩ := ih
    cases hscoped with
    | callBlock _ hbody _ => exact ⟨file, hfile, hbody _ hi⟩
  | member _ hi ih =>
    obtain ⟨file, _, hscoped⟩ := ih
    cases hscoped with
    | bindSpace _ hmembers _ => exact ⟨file, fun _ hm => (nomatch hm), hmembers _ hi⟩
  | markup _ hi ih =>
    obtain ⟨file, _, hscoped⟩ := ih
    cases hscoped with
    | bindSpace _ _ hmarkup => exact ⟨file, fun _ hm => (nomatch hm), hmarkup _ hi⟩

/-- What the program refers to is known where the reference stands. -/
lemma Program.Reads.known (hp : ∀ i ∈ p.instrs, i.Scoped entry []) (h : p.Reads chain r) :
    ∃ file, Macro.InFile chain file ∧ r.Known (Macro.allParams chain) := by
  cases h with
  | output hstands hr =>
    obtain ⟨file, hfile, hscoped⟩ := hstands.scoped hp
    cases hscoped with
    | output he => exact ⟨file, hfile, he r hr⟩
  | wrapped hstands hr =>
    obtain ⟨file, hfile, hscoped⟩ := hstands.scoped hp
    cases hscoped with
    | callBlock _ _ he => exact ⟨file, hfile, he r hr⟩
  | @default chain _ m q e _ hstands hq he hr =>
    obtain ⟨file, hfile, hscoped⟩ := hstands.scoped hp
    cases hscoped with
    | define _ hdefaults _ =>
      have hknown := hdefaults q hq e he r hr
      rw [Macro.visible_eq hfile] at hknown
      exact ⟨m.file, m.inFile_enclose chain, hknown⟩

end Places

/-! ### Parameters in scope -/

/-- The innermost parameters in scope come from calls of the macros, one from each. -/
inductive Scope.Fits : List Macro → Scope → Prop
  | outer (scope : Scope) : Fits [] scope
  | call {chain : List Macro} {scope : Scope} {m : Macro} {d : Dict Value} : Fits chain scope →
      m.Binds scope d → Fits (m :: chain) (d :: scope)

/-- Of the calls in scope, one for each macro of the chain, the one of the first macro that has a
parameter of the given name is a call of `m`, which has given it the value `v`. -/
inductive Scope.Gives (name : String) (m : Macro) (v : Value) : List Macro → Scope → Prop
  | here {chain : List Macro} {scope : Scope} {d : Dict Value} : name ∈ m.params.map (·.name) →
      m.Binds scope d → d.get? name = some v → Gives name m v (m :: chain) (d :: scope)
  | outer {chain : List Macro} {scope : Scope} {inner : Macro} {d : Dict Value} :
      name ∉ inner.params.map (·.name) → inner.Binds scope d → Gives name m v chain scope →
      Gives name m v (inner :: chain) (d :: scope)

section Scope

variable {chain : List Macro} {scope : Scope} {name : String} {m : Macro} {v : Value}

/-- The call of a macro goes on with the chain, or starts anew. -/
lemma Scope.Fits.enclose {d : Dict Value} (h : Fits chain scope) (hbinds : m.Binds scope d) :
    Fits (m.enclose chain) (d :: scope) := by
  rw [Macro.enclose]
  split
  · exact .call h hbinds
  · exact .call (.outer scope) hbinds

/-- A parameter of one of the macros has a value from the first of them that has it. -/
lemma Scope.Fits.gives (h : Fits chain scope) (hname : name ∈ Macro.allParams chain) :
    ∃ m v, Scope.Gives name m v chain scope := by
  induction h with
  | outer => nomatch hname
  | @call chain scope m d _ hbinds ih =>
    by_cases hm : name ∈ m.params.map (·.name)
    · obtain ⟨v, hv⟩ := Option.isSome_iff_exists.1 ((hbinds.isSome_iff name).2 hm)
      exact ⟨m, v, .here hm hbinds hv⟩
    · rw [Macro.allParams, List.flatMap_cons, List.mem_append] at hname
      obtain ⟨m', v, hgives⟩ := ih (hname.resolve_left hm)
      exact ⟨m', v, .outer hm hbinds hgives⟩

lemma Scope.Gives.mem (h : Gives name m v chain scope) : m ∈ chain := by
  induction h with
  | here => exact List.mem_cons_self
  | outer _ _ _ ih => exact List.mem_cons_of_mem _ ih

/-- That value is the one found in the scope. -/
lemma Scope.Gives.get?_eq (h : Gives name m v chain scope) : scope.get? name = some v := by
  induction h with
  | here _ _ hv => rw [Scope.get?, List.findSome?_cons, hv]
  | @outer _ scope _ d hn hbinds _ ih =>
    have hnone := Option.not_isSome_iff_eq_none.1 (mt (hbinds.isSome_iff name).1 hn)
    rw [Scope.get?, List.findSome?_cons, hnone]
    exact ih

end Scope

/-! ### Runs -/

/-- A program beside itself. A place is described by the macros around it in the same file, and the
references that correspond to themselves there are those that the program has there. -/
def Translation.lexical (p : Program) : Translation where
  Env := List Macro
  enter chain m := m.enclose chain
  inSpace _ := []
  fits := Scope.Fits
  ref chain e e' := e = e' ∧ e.IsReference ∧ p.Reads chain e
  name := Equiv.refl String
  error := Eq

section Lexical

variable {p : Program}

lemma Expr.Rel.eq_of_lexical {chain : List Macro} {c c' : Expr}
    (h : Expr.Rel ((Translation.lexical p).ref chain) c c') : c = c' :=
  h.eq fun _ _ h => h.1

lemma Translation.lexical_lawful (p : Program) : (lexical p).Lawful where
  caller := rfl
  kwargs := rfl
  inSpace _ := .outer _
  enter := Scope.Fits.enclose
  reference := by
    rintro chain e _ scope scope' s s' ⟨rfl, he, _⟩ _ hscope hs
    cases he with
    | var name =>
      exact ⟨_, _, .getD (Value.Rel.or (hscope.get? name) (hs.context name)),
        fun _ _ => ⟨rfl, rfl⟩⟩
    | param name => exact ⟨_, _, .getD (hscope.get? name), fun _ _ => ⟨rfl, rfl⟩⟩
    | context name => exact ⟨_, _, .getD (hs.context name), fun _ _ => ⟨rfl, rfl⟩⟩
    | symbol key => exact ⟨_, _, .getD (hs.symbols key), fun _ _ => ⟨rfl, rfl⟩⟩
  notCallable type hc :=
    congrArg (fun c : Expr => RenderError.notCallable type c.describe) hc.eq_of_lexical
  callDepth hc := congrArg (fun c : Expr => RenderError.callDepth c.describe) hc.eq_of_lexical
  error_refl _ := rfl

/-- Code that corresponds instruction by instruction corresponds as a whole. -/
lemma Translation.code_of_forall {T : Translation} {E : T.Env} {is : List Instr}
    (h : ∀ i ∈ is, T.Code E [i] [i]) : T.Code E is is := by
  induction is with
  | nil => exact .nil E
  | cons i rest ih =>
    rw [List.forall_mem_cons] at h
    exact h.1.append (ih h.2)

/-- The code of a program refers at each place to what the program refers to there. -/
lemma Instr.Scoped.lexical {file : String} {params : List String} {i : Instr}
    (h : i.Scoped file params) :
    ∀ {chain}, p.Stands chain i → (Translation.lexical p).Code chain [i] [i] := by
  have hrel {chain : List Macro} {params : List String} {e : Expr} (he : e.Closed params)
      (hreads : ∀ r ∈ e.references, p.Reads chain r) :
      Expr.Rel ((Translation.lexical p).ref chain) e e :=
    Expr.rel_of_references fun r hr => ⟨rfl, (he r hr).isReference, hreads r hr⟩
  induction h with
  | text s => exact fun _ => .text s (.nil _)
  | output he =>
    intro chain hstands
    exact .output (hrel he fun _ hr => .output hstands hr) (.nil _)
  | @define file params m target hdefaults _ ihbody =>
    intro chain hstands
    have hparams : List.Forall₂ (Param.Rel ((Translation.lexical p).ref (m.enclose chain)))
        m.params m.params := by
      refine List.forall₂_same.2 fun q hq => ⟨rfl, ?_⟩
      cases hd : q.default with
      | none => exact .none
      | some e => exact .some (hrel (hdefaults q hq e hd) fun _ hr => .default hstands hq hd hr)
    have hbody : (Translation.lexical p).Code (m.enclose chain) m.body m.body :=
      Translation.code_of_forall fun i hi => ihbody i hi (.body hstands hi)
    have hdefine := Translation.Code.define target hparams (fun _ _ => rfl) hbody
      (Translation.Code.nil (T := .lexical p) chain)
    have htarget : target.rename (Translation.lexical p).name = target := by
      cases target <;> rfl
    rwa [htarget] at hdefine
  | callBlock source _ he ihbody =>
    intro chain hstands
    exact .callBlock source source (Translation.code_of_forall fun i hi => ihbody i hi
      (.content hstands hi)) (hrel he fun _ hr => .wrapped hstands hr) (.nil _)
  | bindSpace handle _ _ ihmembers ihmarkup =>
    intro chain hstands
    exact .bindSpace handle
      (Translation.code_of_forall fun i hi => ihmembers i hi (.member hstands hi))
      (Translation.code_of_forall fun i hi => ihmarkup i hi (.markup hstands hi)) (.nil _)

end Lexical

/-- **Parameters are lexical.** A compiled program contains no variable whose place is left open.
Whatever expression it evaluates, the references in the expression occur in the program inside the
same macros of one file, and each parameter among them is bound: some of these macros have it, and
the value it has in scope is the one that it has been given by the call of the innermost of them. -/
theorem parameters_lexical {c : Compiler} {entry : SourceFile} {p : Program} {data : Json}
    {context : Context} (hp : c.compile entry = .ok p) (hdata : Context.ofJson data = .ok context)
    (fresh : Nat) :
    (∀ chain name, ¬ p.Reads chain (.var name)) ∧
    ∀ {room scope e s}, (Moment.opening p context fresh).Reaches ⟨room, .eval scope e, s⟩ →
      ∃ chain, (∀ r ∈ e.references, p.Reads chain r) ∧ ∀ name, .param name ∈ e.references →
        ∃ m ∈ chain, Macro.InFile chain m.file ∧
          ∃ v, Scope.Gives name m v chain scope ∧ scope.get? name = some v := by
  have hscoped := Compiler.scoped_of_compile hp
  constructor
  · intro chain name hreads
    obtain ⟨_, _, hknown⟩ := hreads.known hscoped
    nomatch hknown
  · intro room scope e s hreach
    have hcode : (Translation.lexical p).Code [] p.instrs p.instrs :=
      Translation.code_of_forall fun i hi => (hscoped i hi).lexical (.top hi)
    have hsteady := (Translation.lexical_lawful p).steady_of_reaches (fun h => h.2.1) hcode
      (.outer []) hdata (fun _ => rfl) hreach
    obtain ⟨chain, hfits, he, _⟩ := hsteady.task
    have hreads : ∀ r ∈ e.references, p.Reads chain r := by
      intro r hr
      obtain ⟨_, h⟩ := he.of_mem_references (fun h => h.2.1) r hr
      exact h.2.2
    refine ⟨chain, hreads, fun name hname => ?_⟩
    obtain ⟨file, hfile, hknown⟩ := (hreads _ hname).known hscoped
    cases hknown with
    | param hparam =>
      obtain ⟨m, v, hgives⟩ := hfits.gives hparam
      have hm : m.file = file := hfile m hgives.mem
      exact ⟨m, hgives.mem, hm ▸ hfile, v, hgives, hgives.get?_eq⟩

open Greeting in
/-- The parameter `n` in the body of the macro that is called on the page that imports the file: it
has been given the value of its default by the call. -/
theorem greeting_lexical : ∃ scope s chain,
    (Moment.opening program context 0).Reaches ⟨127, .eval scope (.param "n"), s⟩ ∧
    (∀ r ∈ (Expr.param "n").references, program.Reads chain r) ∧
    ∀ name, .param name ∈ (Expr.param "n").references →
      ∃ m ∈ chain, Macro.InFile chain m.file ∧
        ∃ v, Scope.Gives name m v chain scope ∧ scope.get? name = some v := by
  have hcall : (Moment.opening program context 0).Reaches ⟨maxCallDepth, .eval [] greeting, _⟩ :=
    .tail (.tail (.tail .refl (.rest rfl)) .first) .output
  have hinvocation : (Moment.opening program context 0).Reaches
      ⟨127 + 1, .invoke (.call _ [] [.string "Ada"]), _⟩ :=
    .tail (.tail hcall (.call rfl rfl rfl)) (.closure (by decide))
  have hbody : (Moment.opening program context 0).Reaches
      ⟨127, .code _ [.text "Hi ", .output (.param "n")], _⟩ := .tail hinvocation (.body rfl)
  have hparam : (Moment.opening program context 0).Reaches ⟨127, .eval _ (.param "n"), _⟩ :=
    .tail (.tail (.tail hbody (.rest rfl)) .first) .output
  obtain ⟨chain, h⟩ := (parameters_lexical whole_compiled data_read 0).2 hparam
  exact ⟨_, _, chain, hparam, h⟩

end Stencil
