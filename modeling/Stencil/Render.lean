import Stencil.Context

/-!
Running programs. A `Renderer` holds the context, the private table and the depth of the calls
under way; a `Run` goes from one renderer to the next, also when it fails.

What can nest without bound are **invocations**: a macro with its arguments, the content of a call
block, and the markup of a namespace. `eval` and `exec` follow the code at hand and get the means
to carry out invocations as an argument, and `invoke` ties the knot: it carries out an invocation
with `room` for that many more inside it. Every invocation is counted in `Renderer.depth` and
refused at `maxCallDepth`, so that there is always room enough.

A macro is invoked as follows (`invokeMacro`): the context is remembered; the parameters get the
positional arguments, then those still undefined get their defaults, from the first to the last,
each default seeing the parameters as they are then; keyword arguments take precedence; the names
of the parameters are removed from the context; the body runs; the remembered context is restored.
-/

namespace Stencil

/-- The entry of the context that stands for the content of the call block. -/
def callerName : String := "caller"

/-- The entry of the context that holds the keyword arguments of the call under way. -/
def kwargsName : String := "kwargs"

/-- The private table. -/
structure SymbolTable where
  entries : List (Symbol × Value)

namespace SymbolTable

/-- Nothing in the table. -/
def empty : SymbolTable := ⟨[]⟩

/-- The value at a place. -/
def get? (t : SymbolTable) (key : Symbol) : Option Value :=
  (t.entries.find? fun e => e.1 = key).map (·.2)

/-- The table with the value at the place, instead of a former one. -/
def insert (t : SymbolTable) (key : Symbol) (v : Value) : SymbolTable :=
  ⟨(key, v) :: t.entries.filter fun e => e.1 ≠ key⟩

end SymbolTable

/-- What running a program depends on and changes. -/
structure Renderer where
  context : Context
  symbols : SymbolTable
  /-- The number of invocations under way. -/
  depth : Nat
  /-- The identity of the next macro or call block. -/
  fresh : Nat

namespace Renderer

/-- A renderer at the start, with a context and the first identity to give out. -/
def start (context : Context) (fresh : Nat) : Renderer :=
  ⟨context, .empty, 0, fresh⟩

/-- The renderer with another context. -/
def mapContext (f : Context → Context) (s : Renderer) : Renderer :=
  { s with context := f s.context }

end Renderer

/-- A computation that goes from one renderer to the next. -/
abbrev Run := EStateM RenderError Renderer

namespace Run

/-- Runs `act` and then changes the renderer, whether `act` has failed or not. -/
def ensuring {α : Type} (act : Run α) (after : Renderer → Renderer) : Run α := fun s =>
  match act s with
  | .ok a s' => .ok a (after s')
  | .error e s' => .error e (after s')

/-- Runs `act` with `v` at a name of the context, and then puts back what was there. -/
def withEntry {α : Type} (name : String) (v : Option Value) (act : Run α) : Run α := fun s =>
  (act.ensuring (·.mapContext (·.set name (s.context.get? name))))
    (s.mapContext (·.set name v))

/-- Runs `act` as an invocation, unless too many are under way. -/
def nested {α : Type} (what : String) (act : Run α) : Run α := fun s =>
  if maxCallDepth ≤ s.depth then .error (.callDepth what) s
  else
    (act.ensuring fun s => { s with depth := s.depth - 1 }) { s with depth := s.depth + 1 }

end Run

/-- What is invoked. -/
inductive Invocation where
  | call (m : Macro) (scope : Scope) (args : List Value)
  | block (body : List Instr) (outer : Option Value) (scope : Scope)
  | markup (body : List Instr) (scope : Scope)

/-- The means to carry out an invocation, which gives its output. -/
abbrev Invoker := Invocation → Run String

/-- The value of a constant. -/
def Literal.value : Literal → Value
  | .nothing => .nothing
  | .bool b => .bool b
  | .number n => .number n
  | .string s => .string s

/-! ### Expressions -/

/-- Calls a value. What is undefined or nothing gives what is undefined. -/
def callValue (invoker : Invoker) (target : Value) (args : List Value)
    (kwargs : Option (Dict Value)) (what : String) : Run Value :=
  let enter (i : Invocation) : Run Value := do
    let out ← Run.nested what (Run.withEntry kwargsName (kwargs.map .map) (invoker i))
    return .string out
  match target with
  | .undefined => pure .undefined
  | .nothing => pure .undefined
  | .closure _ m scope => enter (.call m scope args)
  | .block _ body outer scope => enter (.block body outer scope)
  | v => throw (.notCallable v.type what)

mutual

/-- The value of an expression. -/
def eval (invoker : Invoker) (scope : Scope) : Expr → Run Value
  | .literal l => pure l.value
  | .var name => do
    let s ← get
    return ((scope.get? name).or (s.context.get? name)).getD .undefined
  | .param name => pure ((scope.get? name).getD .undefined)
  | .context name => do
    let s ← get
    return (s.context.get? name).getD .undefined
  | .symbol key => do
    let s ← get
    return (s.symbols.get? key).getD .undefined
  | .member target name => do
    let v ← eval invoker scope target
    return v.member name
  | .index target place => do
    let v ← eval invoker scope target
    let p ← eval invoker scope place
    return v.index p
  | .list items => do
    let vs ← evalItems invoker scope items
    return .list vs
  | .map entries => do
    let vs ← evalEntries invoker scope entries
    return .map (.ofList vs)
  | .call callee args kwargs => do
    let target ← eval invoker scope callee
    let args ← evalItems invoker scope args
    let named ← evalEntries invoker scope kwargs
    callValue invoker target args (if kwargs.isEmpty then none else some (.ofList named))
      callee.describe

/-- The values of expressions, from the first to the last. -/
def evalItems (invoker : Invoker) (scope : Scope) : List Expr → Run (List Value)
  | [] => pure []
  | e :: rest => do
    let v ← eval invoker scope e
    let vs ← evalItems invoker scope rest
    return v :: vs

/-- The values of named expressions, from the first to the last. -/
def evalEntries (invoker : Invoker) (scope : Scope) :
    List (String × Expr) → Run (List (String × Value))
  | [] => pure []
  | (k, e) :: rest => do
    let v ← eval invoker scope e
    let vs ← evalEntries invoker scope rest
    return (k, v) :: vs

end

/-! ### Instructions -/

/-- What a value contributes to the output. -/
def display (invoker : Invoker) (v : Value) : Run String :=
  match v with
  | .space _ (some (body, scope)) =>
    Run.nested "namespace display" (invoker (.markup body scope))
  | v => pure v.text

/-- The namespace at a name of the context, made from a map if one is there. -/
def Context.space (c : Context) (handle : String) :
    Dict Value × Option (List Instr × List (Dict Value)) :=
  match c.get? handle with
  | some (.space members markup) => (members, markup)
  | some (.map members) => (members, none)
  | _ => (.empty, none)

/-- Makes sure that the context has a namespace at a name. -/
def Context.openSpace (c : Context) (handle : String) : Context :=
  let (members, markup) := c.space handle
  c.insert handle (.space members markup)

/-- Gives the namespace at a name its markup. -/
def Context.closeSpace (c : Context) (handle : String) (body : List Instr) (scope : Scope) :
    Context :=
  c.insert handle (.space (c.space handle).1 (some (body, scope)))

/-- Puts a macro where its binding says. -/
def Renderer.bind (s : Renderer) (target : Binding) (v : Value) : Renderer :=
  match target with
  | .context name => s.mapContext (·.insert name v)
  | .member handle name =>
    let (members, markup) := s.context.space handle
    s.mapContext (·.insert handle (.space (members.insert name v) markup))
  | .hidden key => { s with symbols := s.symbols.insert key v }

/-- Gives out an identity. -/
def freshId : Run Nat := do
  let s ← get
  set { s with fresh := s.fresh + 1 }
  return s.fresh

/-- The value of the expression of a call block, while `caller` stands for the content. -/
def evalWrapped (invoker : Invoker) (scope : Scope) (body : List Instr) (e : Expr) : Run Value := do
  let id ← freshId
  let s ← get
  let block := Value.block id body (s.context.get? callerName) scope
  Run.withEntry callerName (some block) (eval invoker scope e)

mutual

/-- Runs an instruction, which gives its output. -/
def execInstr (invoker : Invoker) (scope : Scope) : Instr → Run String
  | .text s => pure s
  | .output e => do
    let v ← eval invoker scope e
    display invoker v
  | .define target m => do
    let id ← freshId
    modify (·.bind target (.closure id m scope))
    return ""
  | .callBlock body e _ => do
    let v ← evalWrapped invoker scope body e
    display invoker v
  | .bindSpace handle members markup => do
    modify (·.mapContext (·.openSpace handle))
    let out ← exec invoker scope members
    modify (·.mapContext (·.closeSpace handle markup scope))
    return out

/-- Runs instructions one after the other, which gives all their output. -/
def exec (invoker : Invoker) (scope : Scope) : List Instr → Run String
  | [] => pure ""
  | i :: rest => do
    let out ← execInstr invoker scope i
    let more ← exec invoker scope rest
    return out ++ more

end

/-! ### Invocations -/

/-- The parameters with their positional arguments. Surplus arguments are dropped. -/
def positional : List Param → List Value → List (String × Value)
  | [], _ => []
  | p :: ps, [] => (p.name, .undefined) :: positional ps []
  | p :: ps, v :: vs => (p.name, v) :: positional ps vs

/-- Gives the parameters that are undefined their defaults, from the first to the last. -/
def fillDefaults (invoker : Invoker) (scope : Scope) : List Param → Dict Value → Run (Dict Value)
  | [], vars => pure vars
  | p :: ps, vars =>
    match p.default with
    | none => fillDefaults invoker scope ps vars
    | some e =>
      if ((vars.get? p.name).getD .undefined).isUndefined then do
        let v ← eval invoker (vars :: scope) e
        fillDefaults invoker scope ps (vars.insert p.name v)
      else fillDefaults invoker scope ps vars

/-- Gives the parameters their keyword arguments, as far as those are defined. -/
def applyKeywords (kwargs : Dict Value) : List Param → Dict Value → Dict Value
  | [], vars => vars
  | p :: ps, vars =>
    match kwargs.get? p.name with
    | some v => applyKeywords kwargs ps (if v.isUndefined then vars else vars.insert p.name v)
    | none => applyKeywords kwargs ps vars

/-- The keyword arguments of the call under way. -/
def Context.kwargs (c : Context) : Dict Value :=
  match c.get? kwargsName with
  | some (.map entries) => entries
  | _ => .empty

/-- The parameters of a macro with their values: positional arguments, then defaults, then keyword
arguments. -/
def bindParams (invoker : Invoker) (m : Macro) (scope : Scope) (args : List Value) :
    Run (Dict Value) := do
  let vars ← fillDefaults invoker scope m.params (.ofList (positional m.params args))
  let s ← get
  return applyKeywords s.context.kwargs m.params vars

/-- Invokes a macro. -/
def invokeMacro (invoker : Invoker) (m : Macro) (scope : Scope) (args : List Value) :
    Run String := do
  let before ← get
  let vars ← bindParams invoker m scope args
  modify (·.mapContext (·.eraseAll (m.params.map (·.name))))
  Run.ensuring (exec invoker (vars :: scope) m.body) (·.mapContext (·.restore before.context))

/-- Carries out an invocation by means of an invoker for those inside it. -/
def carryOut (invoker : Invoker) : Invocation → Run String
  | .call m scope args => invokeMacro invoker m scope args
  | .block body outer scope => Run.withEntry callerName outer (exec invoker scope body)
  | .markup body scope => exec invoker scope body

/-- Carries out an invocation with room for that many more inside it. -/
def invoke : (room : Nat) → Invoker
  | 0, _ => throw (.callDepth "")
  | room + 1, i => carryOut (invoke room) i

/-! ### Programs -/

namespace Renderer

/-- Runs a program. -/
def render (p : Program) : Run String :=
  exec (invoke maxCallDepth) [] p.instrs

/-- The value of an expression with the given parameters in scope. -/
def evaluate (scope : Scope) (e : Expr) : Run Value :=
  eval (invoke maxCallDepth) scope e

/-- What a value contributes to the output. -/
def stringify (v : Value) : Run String :=
  display (invoke maxCallDepth) v

end Renderer

end Stencil
