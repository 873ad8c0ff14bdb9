import Stencil.Proofs.Run
import Mathlib.Logic.Relation

/-!
What happens while a program runs. A **moment** is a piece of work (`Task`) together with the
renderer it starts from and the room left for invocations, and `Moment.Part` leads from a moment to
those of which it consists: to the subexpressions of an expression, to the instructions of a list,
to the invocation behind a call, to the defaults and the body of the macro invoked. A part that
comes after others starts from the renderer that those have left, and comes up at all only if they
have succeeded.

`Moment.Reaches` chains the parts, so that the moments reached from `Moment.opening` are all moments
at which anything is evaluated, displayed or invoked while a program runs, however deeply nested,
and also if the program fails in the end.
-/

namespace Stencil

/-- A piece of work. -/
inductive Task where
  | eval (scope : Scope) (e : Expr)
  | items (scope : Scope) (es : List Expr)
  | entries (scope : Scope) (es : List (String × Expr))
  | call (target : Value) (args : List Value) (kwargs : Option (Dict Value))
  | display (v : Value)
  | instr (scope : Scope) (i : Instr)
  | code (scope : Scope) (is : List Instr)
  | invoke (i : Invocation)
  /-- Giving the parameters in the map that are undefined their defaults. -/
  | defaults (scope : Scope) (ps : List Param) (vars : Dict Value)

/-- A piece of work, with the renderer it starts from and the room for invocations inside it. -/
structure Moment where
  room : Nat
  task : Task
  renderer : Renderer

namespace Renderer

/-- The renderer with which a call with the given keyword arguments is carried out. -/
def calling (s : Renderer) (kwargs : Option (Dict Value)) : Renderer :=
  s.deeper.mapContext (·.set kwargsName (kwargs.map .map))

/-- The renderer with which the expression of a call block is evaluated. -/
def wrapping (s : Renderer) (body : List Instr) (scope : Scope) : Renderer :=
  { s with fresh := s.fresh + 1 }.mapContext
    (·.set callerName (some (.block s.fresh body (s.context.get? callerName) scope)))

/-- The renderer without the names of the parameters in the context. -/
def without (s : Renderer) (ps : List Param) : Renderer :=
  s.mapContext (·.eraseAll (ps.map (·.name)))

end Renderer

namespace Moment

/-- The second moment is part of the first. -/
inductive Part : Moment → Moment → Prop
  | target {r scope t name s} :
      Part ⟨r, .eval scope (.member t name), s⟩ ⟨r, .eval scope t, s⟩
  | indexed {r scope t p s} : Part ⟨r, .eval scope (.index t p), s⟩ ⟨r, .eval scope t, s⟩
  | place {r scope t p s v s₁} : eval (invoke r) scope t s = .ok v s₁ →
      Part ⟨r, .eval scope (.index t p), s⟩ ⟨r, .eval scope p, s₁⟩
  | list {r scope es s} : Part ⟨r, .eval scope (.list es), s⟩ ⟨r, .items scope es, s⟩
  | map {r scope es s} : Part ⟨r, .eval scope (.map es), s⟩ ⟨r, .entries scope es, s⟩
  | callee {r scope c as ks s} : Part ⟨r, .eval scope (.call c as ks), s⟩ ⟨r, .eval scope c, s⟩
  | args {r scope c as ks s v s₁} : eval (invoke r) scope c s = .ok v s₁ →
      Part ⟨r, .eval scope (.call c as ks), s⟩ ⟨r, .items scope as, s₁⟩
  | kwargs {r scope c as ks s v s₁ vs s₂} : eval (invoke r) scope c s = .ok v s₁ →
      evalItems (invoke r) scope as s₁ = .ok vs s₂ →
      Part ⟨r, .eval scope (.call c as ks), s⟩ ⟨r, .entries scope ks, s₂⟩
  | call {r scope c as ks s v s₁ vs s₂ named s₃} : eval (invoke r) scope c s = .ok v s₁ →
      evalItems (invoke r) scope as s₁ = .ok vs s₂ →
      evalEntries (invoke r) scope ks s₂ = .ok named s₃ →
      Part ⟨r, .eval scope (.call c as ks), s⟩
        ⟨r, .call v vs (if ks.isEmpty then none else some (.ofList named)), s₃⟩
  | item {r scope e es s} : Part ⟨r, .items scope (e :: es), s⟩ ⟨r, .eval scope e, s⟩
  | items {r scope e es s v s₁} : eval (invoke r) scope e s = .ok v s₁ →
      Part ⟨r, .items scope (e :: es), s⟩ ⟨r, .items scope es, s₁⟩
  | entry {r scope k e es s} : Part ⟨r, .entries scope ((k, e) :: es), s⟩ ⟨r, .eval scope e, s⟩
  | entries {r scope k e es s v s₁} : eval (invoke r) scope e s = .ok v s₁ →
      Part ⟨r, .entries scope ((k, e) :: es), s⟩ ⟨r, .entries scope es, s₁⟩
  | closure {r id m scope args kwargs s} : s.depth < maxCallDepth →
      Part ⟨r, .call (.closure id m scope) args kwargs, s⟩
        ⟨r, .invoke (.call m scope args), s.calling kwargs⟩
  | block {r id body outer scope args kwargs s} : s.depth < maxCallDepth →
      Part ⟨r, .call (.block id body outer scope) args kwargs, s⟩
        ⟨r, .invoke (.block body outer scope), s.calling kwargs⟩
  | space {r members body scope s} : s.depth < maxCallDepth →
      Part ⟨r, .display (.space members (some (body, scope))), s⟩
        ⟨r, .invoke (.markup body scope), s.deeper⟩
  | output {r scope e s} : Part ⟨r, .instr scope (.output e), s⟩ ⟨r, .eval scope e, s⟩
  | displayed {r scope e s v s₁} : eval (invoke r) scope e s = .ok v s₁ →
      Part ⟨r, .instr scope (.output e), s⟩ ⟨r, .display v, s₁⟩
  | wrapped {r scope body e source s} :
      Part ⟨r, .instr scope (.callBlock body e source), s⟩
        ⟨r, .eval scope e, s.wrapping body scope⟩
  | wrappedDisplayed {r scope body e source s v s₁} :
      evalWrapped (invoke r) scope body e s = .ok v s₁ →
      Part ⟨r, .instr scope (.callBlock body e source), s⟩ ⟨r, .display v, s₁⟩
  | members {r scope handle members markup s} :
      Part ⟨r, .instr scope (.bindSpace handle members markup), s⟩
        ⟨r, .code scope members, s.mapContext (·.openSpace handle)⟩
  | first {r scope i is s} : Part ⟨r, .code scope (i :: is), s⟩ ⟨r, .instr scope i, s⟩
  | rest {r scope i is s out s₁} : execInstr (invoke r) scope i s = .ok out s₁ →
      Part ⟨r, .code scope (i :: is), s⟩ ⟨r, .code scope is, s₁⟩
  | params {r m scope args s} :
      Part ⟨r + 1, .invoke (.call m scope args), s⟩
        ⟨r, .defaults scope m.params (.ofList (positional m.params args)), s⟩
  | body {r m scope args s vars s₁} : bindParams (invoke r) m scope args s = .ok vars s₁ →
      Part ⟨r + 1, .invoke (.call m scope args), s⟩
        ⟨r, .code (vars :: scope) m.body, s₁.without m.params⟩
  | content {r body outer scope s} :
      Part ⟨r + 1, .invoke (.block body outer scope), s⟩
        ⟨r, .code scope body, s.mapContext (·.set callerName outer)⟩
  | markup {r body scope s} :
      Part ⟨r + 1, .invoke (.markup body scope), s⟩ ⟨r, .code scope body, s⟩
  | default {r scope p ps vars s e} : p.default = some e →
      ((vars.get? p.name).getD .undefined).isUndefined →
      Part ⟨r, .defaults scope (p :: ps) vars, s⟩ ⟨r, .eval (vars :: scope) e, s⟩
  | filled {r scope p ps vars s e v s₁} : p.default = some e →
      ((vars.get? p.name).getD .undefined).isUndefined →
      eval (invoke r) (vars :: scope) e s = .ok v s₁ →
      Part ⟨r, .defaults scope (p :: ps) vars, s⟩
        ⟨r, .defaults scope ps (vars.insert p.name v), s₁⟩
  | given {r scope p ps vars s} :
      (p.default = none ∨ ¬ ((vars.get? p.name).getD .undefined).isUndefined) →
      Part ⟨r, .defaults scope (p :: ps) vars, s⟩ ⟨r, .defaults scope ps vars, s⟩

/-- The second moment comes up in the course of the first. -/
def Reaches : Moment → Moment → Prop :=
  Relation.ReflTransGen Part

/-- The moment at which the program starts with the given context. -/
def opening (p : Program) (context : Context) (fresh : Nat) : Moment :=
  ⟨maxCallDepth, .code [] p.instrs, .start context fresh⟩

/-- What holds at first and passes on to every part holds at all moments reached. -/
lemma Reaches.invariant {P : Moment → Prop} {m m' : Moment} (h : Reaches m m') (hm : P m)
    (hpart : ∀ {a b}, P a → Part a b → P b) : P m' := by
  induction h with
  | refl => exact hm
  | tail _ hstep ih => exact hpart ih hstep

end Moment

end Stencil
