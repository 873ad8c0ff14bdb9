import Stencil.Proofs.Parameters
import Stencil.Proofs.Relocation

/-!
Programs before and after an abstraction. An `Abstraction` names the macros that have been put
around pieces of a program, which **pass on** the content they are called with (`Macro.passOn`), and
the entries of the context that are **hidden**: the two programs may disagree on them, and what they
have in common does not mention them.

Code that defines nothing corresponds to the same code in which pieces have become the content of
call blocks of passing macros (`Abstraction.Code`). At the top level a piece may also have become
the body of a macro that is called in its place (`Abstraction.TopLevel`). Values correspond if they
are built alike from corresponding code (`Abstraction.Values`); the scopes that code is closed over
need to have the same parameters only, since the body of a macro without parameters is closed over
one scope more than the piece it has been made from. Renderers **agree** if everything that is not
hidden corresponds (`Abstraction.Agree`). How many calls are under way does not matter.
-/

namespace Stencil

/-- The macro that puts out the content it is called with:
`{% macro name() %}{{ caller() }}{% endmacro %}`. -/
def Macro.passOn (name file : String) : Macro :=
  ⟨name, [], [.output (.call (.context callerName) [] [])], file⟩

/-- What has been put around pieces of a program. -/
structure Abstraction where
  /-- The macros that pass on the content they are called with. -/
  passing : String → Prop
  /-- The entries of the context that the code in common does not mention. -/
  hidden : String → Prop

namespace Abstraction

/-! ### Code -/

/-- A reference that does not mention a hidden entry, and itself. -/
inductive Ref (A : Abstraction) : Expr → Expr → Prop
  | param (name : String) : Ref A (.param name) (.param name)
  | context {name : String} : ¬ A.hidden name → Ref A (.context name) (.context name)
  | symbol (key : Symbol) : Ref A (.symbol key) (.symbol key)

/-- Code that defines nothing, and the same code with pieces of it handed to passing macros. -/
inductive Code (A : Abstraction) : List Instr → List Instr → Prop
  | nil : Code A [] []
  | text (s : String) : Code A [.text s] [.text s]
  | output {e e' : Expr} : Expr.Rel A.Ref e e' → Code A [.output e] [.output e']
  | callBlock {body body' : List Instr} {e e' : Expr} (source source' : String) :
      Code A body body' → Expr.Rel A.Ref e e' →
      Code A [.callBlock body e source] [.callBlock body' e' source']
  | handed {name : String} {body body' : List Instr} (source : String) : A.passing name →
      Code A body body' → Code A body [.callBlock body' (.call (.context name) [] []) source]
  | append {is is' js js' : List Instr} : Code A is is' → Code A js js' →
      Code A (is ++ js) (is' ++ js')

/-- Macros with corresponding parameters, none of which is called like a hidden entry, and with
corresponding bodies. -/
structure Macros (A : Abstraction) (m m' : Macro) : Prop where
  params : List.Forall₂ (Param.Rel A.Ref) m.params m'.params
  free : ∀ p ∈ m.params, ¬ A.hidden p.name
  body : A.Code m.body m'.body

/-- Code at the top level, and the same code with pieces of it handed to passing macros or made the
bodies of macros that are called in their place. -/
inductive TopLevel (A : Abstraction) : List Instr → List Instr → Prop
  | flat {is is' : List Instr} : A.Code is is' → TopLevel A is is'
  | define {target : Binding} {m m' : Macro} : (∀ name ∈ target.root?, ¬ A.hidden name) →
      A.Macros m m' → TopLevel A [.define target m] [.define target m']
  | bindSpace {handle : String} {members members' markup markup' : List Instr} :
      ¬ A.hidden handle → TopLevel A members members' → A.Code markup markup' →
      TopLevel A [.bindSpace handle members markup] [.bindSpace handle members' markup']
  | extracted {name : String} {body body' : List Instr} (file : String) : A.hidden name →
      ¬ A.passing name → A.Code body body' → TopLevel A body
        [.define (.context name) ⟨name, [], body', file⟩, .output (.call (.context name) [] [])]
  | append {is is' js js' : List Instr} : TopLevel A is is' → TopLevel A js js' →
      TopLevel A (is ++ js) (is' ++ js')

/-! ### Values -/

/-- Values that are built alike from corresponding code, in scopes with the same parameters. -/
inductive Values (A : Abstraction) : Value → Value → Prop
  | undefined : Values A .undefined .undefined
  | nothing : Values A .nothing .nothing
  | bool (b : Bool) : Values A (.bool b) (.bool b)
  | number (n : Number) : Values A (.number n) (.number n)
  | string (s : String) : Values A (.string s) (.string s)
  | list {vs ws : List Value} : List.Forall₂ (Values A) vs ws → Values A (.list vs) (.list ws)
  | map {d d' : Dict Value} : Dict.Rel (Values A) d d' → Values A (.map d) (.map d')
  | closure (i i' : Nat) {m m' : Macro} {s s' : Scope} : A.Macros m m' →
      (∀ k, Option.Rel (Values A) (s.get? k) (s'.get? k)) →
      Values A (.closure i m s) (.closure i' m' s')
  | block (i i' : Nat) {b b' : List Instr} {o o' : Option Value} {s s' : Scope} : A.Code b b' →
      Option.Rel (Values A) o o' → (∀ k, Option.Rel (Values A) (s.get? k) (s'.get? k)) →
      Values A (.block i b o s) (.block i' b' o' s')
  | space {d d' : Dict Value} : Dict.Rel (Values A) d d' →
      Values A (.space d none) (.space d' none)
  | shown {d d' : Dict Value} {b b' : List Instr} {s s' : Scope} : Dict.Rel (Values A) d d' →
      A.Code b b' → (∀ k, Option.Rel (Values A) (s.get? k) (s'.get? k)) →
      Values A (.space d (some (b, s))) (.space d' (some (b', s')))

/-- Scopes in which each name has corresponding values. -/
abbrev Scopes (A : Abstraction) (s s' : Scope) : Prop :=
  ∀ k, Option.Rel A.Values (s.get? k) (s'.get? k)

variable {A : Abstraction}

instance likeness : Value.Likeness A.Values where
  shape h := by
    cases h with
    | undefined => exact .undefined
    | nothing => exact .nothing
    | bool b => exact .bool b
    | number n => exact .number n
    | string s => exact .string s
    | list h => exact .list h
    | map h => exact .map h
    | closure i i' _ _ => exact .closure i i' _ _ _ _
    | block i i' _ _ _ => exact .block i i' _ _ _ _ _ _
    | space h => exact .space _ _ h
    | shown h _ _ => exact .space _ _ h
  undefined := .undefined
  nothing := .nothing
  bool := .bool
  number := .number
  string := .string
  list := .list
  map := .map
  space := .space
  members h he := by
    cases h with
    | space _ => exact .space he
    | shown _ hb hs => exact .shown he hb hs

/-- References that correspond are the same, and so are expressions. -/
lemma eq_of_rel {e e' : Expr} (h : Expr.Rel A.Ref e e') : e = e' :=
  h.eq fun _ _ hr => by cases hr <;> rfl

lemma Scopes.nil : A.Scopes [] [] := fun _ => .none

/-- Scopes stay in correspondence inside of corresponding calls. -/
lemma Scopes.cons {d d' : Dict Value} {s s' : Scope} (hd : Dict.Rel A.Values d d')
    (h : A.Scopes s s') : A.Scopes (d :: s) (d' :: s') := by
  intro k
  rw [Scope.get?_cons, Scope.get?_cons]
  exact Value.Likeness.or (hd.get? k) (h k)

/-- A call without parameters adds nothing to the scope. -/
lemma Scopes.empty_cons {s s' : Scope} (h : A.Scopes s s') : A.Scopes s (.empty :: s') := by
  intro k
  rw [Scope.get?_cons]
  exact h k

/-! ### Renderers -/

/-- The names belong together: passing macros are hidden, and so are the keyword arguments, but not
the content of call blocks. -/
structure Lawful (A : Abstraction) : Prop where
  passing : ∀ {name}, A.passing name → A.hidden name
  caller : ¬ A.hidden callerName
  kwargs : A.hidden kwargsName
  kwargs_passing : ¬ A.passing kwargsName

lemma Lawful.ne_caller (hA : A.Lawful) {name : String} (h : A.hidden name) : callerName ≠ name :=
  fun heq => hA.caller (heq ▸ h)

/-- Renderers in which all that is not hidden corresponds. The second one has the passing macros. -/
structure Agree (A : Abstraction) (s s' : Renderer) : Prop where
  context : ∀ k, ¬ A.hidden k → Option.Rel A.Values (s.context.get? k) (s'.context.get? k)
  symbols : ∀ key, Option.Rel A.Values (s.symbols.get? key) (s'.symbols.get? key)
  passing : ∀ name, A.passing name →
    ∃ i file, s'.context.get? name = some (.closure i (.passOn name file) [])

namespace Agree

variable {s s' t t' : Renderer}

/-- Nothing but context and private table matters. -/
lemma of_pinned (h : A.Agree s s') (hc : t.context = s.context) (hs : t.symbols = s.symbols)
    (hc' : t'.context = s'.context) (hs' : t'.symbols = s'.symbols) : A.Agree t t' := by
  refine ⟨?_, ?_, ?_⟩
  · rw [hc, hc']
    exact h.context
  · rw [hs, hs']
    exact h.symbols
  · rw [hc']
    exact h.passing

lemma of_same (h : A.Agree s s') (ht : Pinned s s' t t') : A.Agree t t' :=
  h.of_pinned ht.1.context ht.1.symbols ht.2.context ht.2.symbols

/-- An entry may be set to corresponding values, and to any if it is hidden. -/
lemma set (h : A.Agree s s') (k : String) (hk : ¬ A.passing k) {o o' : Option Value}
    (ho : ¬ A.hidden k → Option.Rel A.Values o o') :
    A.Agree (s.mapContext (·.set k o)) (s'.mapContext (·.set k o')) := by
  refine ⟨fun x hx => ?_, h.symbols, fun name hname => ?_⟩
  · show Option.Rel A.Values ((s.context.set k o).get? x) ((s'.context.set k o').get? x)
    rw [Context.get?_set, Context.get?_set]
    split
    next heq => exact ho (heq ▸ hx)
    next => exact h.context x hx
  · obtain ⟨i, file, hget⟩ := h.passing name hname
    have hne : k ≠ name := fun heq => hk (heq ▸ hname)
    refine ⟨i, file, ?_⟩
    show (s'.context.set k o').get? name = _
    rw [Context.get?_set, if_neg hne, hget]

/-- The second renderer may have anything in a hidden entry. -/
lemma except (h : A.Agree s s') {k : String} (hhidden : A.hidden k) (hk : ¬ A.passing k)
    (hc : ∀ x, k ≠ x → t'.context.get? x = s'.context.get? x) (hs : t'.symbols = s'.symbols) :
    A.Agree s t' := by
  refine ⟨fun x hx => ?_, hs ▸ h.symbols, fun name hname => ?_⟩
  · have hne : k ≠ x := fun heq => hx (heq ▸ hhidden)
    rw [hc x hne]
    exact h.context x hx
  · have hne : k ≠ name := fun heq => hk (heq ▸ hname)
    rw [hc name hne]
    exact h.passing name hname

end Agree

namespace Lawful

variable (hA : A.Lawful) {s s' : Renderer}

include hA

/-- An entry that is not hidden may be set to corresponding values. -/
lemma agree_set (h : A.Agree s s') {k : String} (hk : ¬ A.hidden k) {o o' : Option Value}
    (ho : Option.Rel A.Values o o') :
    A.Agree (s.mapContext (·.set k o)) (s'.mapContext (·.set k o')) :=
  h.set k (fun hp => hk (hA.passing hp)) fun _ => ho

/-- Names that are not hidden may be removed. -/
lemma agree_eraseAll (h : A.Agree s s') {names : List String} (hnames : ∀ k ∈ names, ¬ A.hidden k) :
    A.Agree (s.mapContext (·.eraseAll names)) (s'.mapContext (·.eraseAll names)) := by
  induction names generalizing s s' with
  | nil => exact h
  | cons k rest ih =>
    rw [List.forall_mem_cons] at hnames
    have hset : A.Agree (s.mapContext (·.set k none)) (s'.mapContext (·.set k none)) :=
      hA.agree_set h hnames.1 .none
    exact ih hset hnames.2

lemma agree_openSpace (h : A.Agree s s') {handle : String} (hhandle : ¬ A.hidden handle) :
    A.Agree (s.mapContext (·.openSpace handle)) (s'.mapContext (·.openSpace handle)) := by
  obtain ⟨hmembers, hspace⟩ := Context.space_rel (h.context handle hhandle)
  exact hA.agree_set h hhandle (.some (hspace hmembers))

lemma agree_closeSpace (h : A.Agree s s') {handle : String} (hhandle : ¬ A.hidden handle)
    {body body' : List Instr} (hbody : A.Code body body') {scope scope' : Scope}
    (hscope : A.Scopes scope scope') :
    A.Agree (s.mapContext (·.closeSpace handle body scope))
      (s'.mapContext (·.closeSpace handle body' scope')) := by
  obtain ⟨hmembers, _⟩ := Context.space_rel (h.context handle hhandle)
  exact hA.agree_set h hhandle (.some (.shown hmembers hbody hscope))

/-- Corresponding values may be put where a binding says. -/
lemma agree_bind (h : A.Agree s s') {target : Binding}
    (htarget : ∀ name ∈ target.root?, ¬ A.hidden name) {v v' : Value} (hv : A.Values v v') :
    A.Agree (s.bind target v) (s'.bind target v') := by
  cases target with
  | context name => exact hA.agree_set h (htarget name rfl) (.some hv)
  | member handle name =>
    obtain ⟨hmembers, hspace⟩ := Context.space_rel (h.context handle (htarget handle rfl))
    exact hA.agree_set h (htarget handle rfl) (.some (hspace (hmembers.insert name hv)))
  | hidden key =>
    refine ⟨h.context, fun k => ?_, h.passing⟩
    show Option.Rel A.Values ((s.symbols.insert key v).get? k) ((s'.symbols.insert key v').get? k)
    rw [SymbolTable.get?_insert, SymbolTable.get?_insert]
    split
    · exact .some hv
    · exact h.symbols k

end Lawful

end Abstraction

end Stencil
