import Stencil.Number.Notation
import Stencil.Program
import Stencil.Text.Quoted

/-!
Programs as scripts. The script is written for a host that provides the context `_ctx`, the
private table `_symbols` and the functions of `_utils`. Parameters of macros become parameters of
functions; `Script.localName` puts an underscore before those that would be taken for something
else. `Program.script` writes one statement a line, indented by its nesting.
-/

namespace Stencil.Script

open Text (jsonQuote)

/-- Words that cannot name a parameter of a function. -/
def reserved : List String := [
  "break", "case", "catch", "class", "const", "continue", "debugger", "default", "delete",
  "do", "else", "enum", "export", "extends", "false", "finally", "for", "function", "if",
  "import", "in", "instanceof", "let", "new", "null", "return", "super", "switch", "this",
  "throw", "true", "try", "typeof", "var", "void", "while", "with", "yield"]

/-- The name of a parameter of a macro. -/
def localName (name : String) : String :=
  if reserved.contains name || name.toList.head? == some '_' then "_" ++ name else name

/-- Texts with a comma and a space between them. -/
def commas (parts : List String) : String :=
  ", ".intercalate parts

/-- A text in braces. -/
def braced (s : String) : String :=
  "\x7b" ++ s ++ "\x7d"

/-- The place of a macro in the private table. -/
def symbol (key : Symbol) : String :=
  "_symbols[" ++ jsonQuote (key.file ++ "#" ++ key.name) ++ "]"

/-- A constant. -/
def literal : Literal → String
  | .nothing => "null"
  | .bool b => if b then "true" else "false"
  | .number n => n.text
  | .string s => jsonQuote s

mutual

/-- An expression. -/
def expr : Expr → String
  | .literal l => literal l
  | .var name => "_ctx." ++ name
  | .context name => "_ctx." ++ name
  | .param name => localName name
  | .symbol key => symbol key
  | .member target name => expr target ++ "." ++ name
  | .index target place => expr target ++ "[" ++ expr place ++ "]"
  | .list items => "[" ++ commas (exprs items) ++ "]"
  | .map es => braced (commas (entries es))
  | .call callee args kwargs =>
    let call := expr callee ++ "(" ++ commas (exprs args) ++ ")"
    match kwargs with
    | [] => call
    | kwargs =>
      "_utils.withKwargs(_ctx, " ++ braced (commas (entries kwargs)) ++ ", function () " ++
        braced (" return " ++ call ++ "; ") ++ ")"

/-- Expressions. -/
def exprs : List Expr → List String
  | [] => []
  | e :: rest => expr e :: exprs rest

/-- Entries of a map. -/
def entries : List (String × Expr) → List String
  | [] => []
  | (k, e) :: rest => (jsonQuote k ++ ": " ++ expr e) :: entries rest

end

/-- What a macro is assigned to. -/
def target : Binding → String
  | .context name => "_ctx." ++ name
  | .member handle name => "_ctx." ++ handle ++ "." ++ name
  | .hidden key => symbol key

/-- A line, indented by its nesting. -/
def line (depth : Nat) (s : String) : String :=
  String.ofList (List.replicate (2 * depth) ' ') ++ s

/-- The statement that gives a parameter its default. -/
def defaultLine? (p : Param) : Option String :=
  p.default.map fun e =>
    let name := localName p.name
    "if (" ++ name ++ " === undefined) " ++ braced (" " ++ name ++ " = " ++ expr e ++ "; ")

/-- The statement that gives a parameter its keyword argument. -/
def keywordLine (p : Param) : String :=
  let argument := "_ctx.kwargs." ++ p.name
  "if (" ++ argument ++ " !== undefined) " ++
    braced (" " ++ localName p.name ++ " = " ++ argument ++ "; ")

/-- The statements that let keyword arguments in and take the parameters out of the context. -/
def keywordLines (depth : Nat) (params : List Param) : List String :=
  if params.isEmpty then []
  else
    [line depth "if (_ctx.kwargs !== undefined) \x7b"] ++
    params.map (fun p => line (depth + 1) (keywordLine p)) ++
    [line depth "\x7d",
      line depth ("_utils.each([" ++ commas (params.map fun p => jsonQuote p.name) ++
        "], function (k) \x7b delete _ctx[k]; \x7d);")]

mutual

/-- The lines of an instruction. -/
def instr (depth : Nat) : Instr → List String
  | .text s => [line depth ("_output += " ++ jsonQuote s ++ ";")]
  | .output e => [line depth ("_output += " ++ expr e ++ ";")]
  | .define binding m => definition depth (target binding) m
  | .callBlock body e _ =>
    [line depth "var __caller = _ctx.caller;",
      line depth "_ctx.caller = (function (__outer) \x7b",
      line (depth + 1) "return function () \x7b",
      line (depth + 2) "var _output = \"\",",
      line (depth + 2) "  __inner = _ctx.caller;",
      line (depth + 2) "_ctx.caller = __outer;"] ++
    instrs (depth + 2) body ++
    [line (depth + 2) "_ctx.caller = __inner;",
      line (depth + 2) "return _output;",
      line (depth + 1) "\x7d;",
      line depth "\x7d)(__caller);",
      line depth ("_output += " ++ expr e ++ ";"),
      line depth ("if (__caller === undefined) \x7b delete _ctx.caller; \x7d " ++
        "else \x7b _ctx.caller = __caller; \x7d")]
  | .bindSpace handle members markup =>
    let space := "_ctx." ++ handle
    [line depth (space ++ " = (" ++ space ++ " || \x7b\x7d);")] ++
    instrs depth members ++
    [line depth (space ++ ".toString = function () \x7b"),
      line (depth + 1) "var _output = \"\";"] ++
    instrs (depth + 1) markup ++
    [line (depth + 1) "return _output;",
      line depth "\x7d;"]

/-- The lines of a macro assigned to `name`. -/
def definition (depth : Nat) (name : String) : Macro → List String
  | ⟨_, params, body, _⟩ =>
    [line depth (name ++ " = function (" ++ commas (params.map fun p => localName p.name) ++
        ") \x7b"),
      line (depth + 1) "var _output = \"\",",
      line (depth + 1) "  __ctx = _utils.extend(\x7b\x7d, _ctx);"] ++
    (params.filterMap defaultLine?).map (line (depth + 1)) ++
    keywordLines (depth + 1) params ++
    instrs (depth + 1) body ++
    [line (depth + 1) "_ctx = _utils.extend(_ctx, __ctx);",
      line (depth + 1) "return _output;",
      line depth "\x7d;",
      line depth (name ++ ".safe = true;")]

/-- The lines of instructions. -/
def instrs (depth : Nat) : List Instr → List String
  | [] => []
  | i :: rest => instr depth i ++ instrs depth rest

end

end Stencil.Script

namespace Stencil

/-- The script of a program. -/
def Program.script (p : Program) : String :=
  String.join ((Script.instrs 0 p.instrs).map (· ++ "\n"))

end Stencil
