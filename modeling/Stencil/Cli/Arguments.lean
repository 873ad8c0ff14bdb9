/-!
The arguments of the command line: a command with its operands, and options. Options begin with a
dash; `--config` and `--verbose` may stand in front of the command or behind it, all others belong
to one command. `Level.read` goes through the arguments of one **level**, which is what stands in
front of the command or what stands behind it.
-/

namespace Stencil.Cli

/-- The commands. -/
inductive Verb where
  | compile
  | render
  | ast
  | check
  | tags
  deriving DecidableEq, Repr

/-- Where the data of a rendering comes from. -/
inductive DataSource where
  | none
  | text (json : String)
  | file (path : String)
  deriving DecidableEq, Repr

/-- A command with what it needs. -/
inductive Command where
  | compile (file : String)
  | render (file : String) (data : DataSource)
  | ast (file : String)
  | check (path : String)
  | tags
  deriving DecidableEq, Repr

/-- What is asked for. -/
structure Arguments where
  /-- The file of the settings. -/
  config : Option String
  /-- Whether a log is asked for. -/
  verbose : Bool
  command : Command
  deriving DecidableEq, Repr

/-- Reasons not to carry out a command. -/
inductive Stop where
  /-- The arguments make no sense. -/
  | misuse
  /-- The user asks for help. -/
  | help
  /-- The user asks for the version. -/
  | version
  deriving DecidableEq, Repr

/-! ### Single arguments -/

/-- The kinds of arguments. -/
inductive Argument where
  /-- A word without a dash in front, or a dash alone. -/
  | operand (s : String)
  /-- Two dashes, behind which everything is an operand. -/
  | separator
  /-- A name behind two dashes, and what stands behind an equals sign. -/
  | option (name : String) (value : Option String)
  /-- Letters behind one dash. -/
  | letters (cs : List Char)
  deriving DecidableEq, Repr

/-- The kind of an argument. -/
def Argument.ofString (s : String) : Argument :=
  match s.toList with
  | ['-', '-'] => .separator
  | '-' :: '-' :: cs =>
    let name := String.ofList (cs.takeWhile (· != '='))
    match cs.dropWhile (· != '=') with
    | [] => .option name none
    | _ :: value => .option name (some (String.ofList value))
  | '-' :: c :: cs => .letters (c :: cs)
  | _ => .operand s

/-- Whether an argument can be the value of the option in front of it. -/
def Argument.isValue : Argument → Bool
  | operand _ => true
  | _ => false

/-! ### Levels -/

/-- What can be said on a level. -/
inductive Level where
  /-- In front of the command. -/
  | front
  /-- Behind the command. -/
  | behind (verb : Verb)
  deriving DecidableEq, Repr

/-- What has been said on a level. -/
structure Said where
  config : Option String := none
  verbose : Bool := false
  data : Option String := none
  dataFile : Option String := none
  operands : List String := []

namespace Level

/-- How many operands a level has room for. -/
def room : Level → Nat
  | front | behind .tags => 0
  | behind _ => 1

/-- Notes an option that must not be given before. -/
def once (former : Option String) (said : Said) : Except Stop Said :=
  if former.isNone then .ok said else .error .misuse

/-- Notes an option whose value is a path, which is never empty. -/
def oncePath (former : Option String) (path : String) (said : Said) : Except Stop Said :=
  if path.isEmpty then .error .misuse else once former said

/-- Whether an option has a value, if the level has it at all. -/
def takesValue (l : Level) (name : String) : Bool :=
  name == "config" || l == .behind .render && (name == "data" || name == "data-file")

/-- Notes an option with its value. -/
def note (said : Said) (name value : String) : Except Stop Said :=
  if name = "config" then oncePath said.config value { said with config := some value }
  else if name = "data" then once said.data { said with data := some value }
  else oncePath said.dataFile value { said with dataFile := some value }

/-- Notes that a log is asked for. -/
def noteVerbose (said : Said) : Except Stop Said :=
  if said.verbose then .error .misuse else .ok { said with verbose := true }

/-- Notes an option without a value. -/
def flag (l : Level) (said : Said) (name : String) : Except Stop Said :=
  if name = "verbose" then noteVerbose said
  else if name = "help" then .error .help
  else if name = "version" ∧ l = .front then .error .version
  else .error .misuse

/-- The option that a letter is short for. -/
def long (c : Char) : String :=
  if c = 'v' then "verbose" else if c = 'h' then "help" else if c = 'V' then "version" else ""

/-- Notes the options that letters are short for. -/
def flags (l : Level) (said : Said) : List Char → Except Stop Said
  | [] => .ok said
  | c :: cs => do
    let said ← l.flag said (long c)
    l.flags said cs

/-- What the arguments of a level say, and the arguments behind the level. The front ends with the
first operand. -/
def read (l : Level) (said : Said) : List String → Except Stop (Said × List String)
  | [] => .ok (said, [])
  | a :: rest =>
    match Argument.ofString a with
    | .operand s =>
      if l = .front then .ok (said, a :: rest)
      else if said.operands.length < l.room then
        l.read { said with operands := said.operands ++ [s] } rest
      else .error .misuse
    | .separator =>
      if l ≠ .front ∧ said.operands.length + rest.length ≤ l.room then
        .ok ({ said with operands := said.operands ++ rest }, [])
      else .error .misuse
    | .letters cs => do
      let said ← l.flags said cs
      l.read said rest
    | .option name value =>
      if l.takesValue name then
        match value, rest with
        | some value, rest => do
          let said ← note said name value
          l.read said rest
        | none, value :: rest =>
          if (Argument.ofString value).isValue then do
            let said ← note said name value
            l.read said rest
          else .error .misuse
        | none, [] => .error .misuse
      else if value.isSome then .error .misuse
      else do
        let said ← l.flag said name
        l.read said rest

end Level

/-! ### Commands -/

namespace Verb

/-- The word a command starts with. -/
def name : Verb → String
  | compile => "compile"
  | render => "render"
  | ast => "ast"
  | check => "check"
  | tags => "tags"

/-- The command of a word. -/
def ofName? (s : String) : Option Verb :=
  [compile, render, ast, check, tags].find? fun v => v.name == s

/-- The command that is given by what is said behind its name. -/
def command? (v : Verb) (said : Said) : Option Command :=
  match v with
  | compile => said.operands.head?.map .compile
  | ast => said.operands.head?.map .ast
  | tags => some .tags
  | check =>
    let path := said.operands.head?.getD "."
    if path.isEmpty then none else some (.check path)
  | render =>
    said.operands.head?.bind fun file =>
      match said.data, said.dataFile with
      | none, none => some (.render file .none)
      | some json, none => some (.render file (.text json))
      | none, some path => some (.render file (.file path))
      | some _, some _ => none

end Verb

/-- Whether there is help on the given words: on a command, or on help itself. -/
def isHelpTopic : List String → Bool
  | [] => true
  | "help" :: rest => isHelpTopic rest
  | [s] => (Verb.ofName? s).isSome
  | _ => false

/-- What the arguments of the command line ask for. Settings named behind the command come before
those named in front. -/
def Arguments.parse (args : List String) : Except Stop Arguments := do
  let (front, rest) ← Level.front.read {} args
  match rest with
  | [] => .error .misuse
  | name :: rest =>
    if name = "help" then .error (if isHelpTopic rest then .help else .misuse)
    else
      match Verb.ofName? name with
      | none => .error .misuse
      | some verb => do
        let (said, _) ← (Level.behind verb).read {} rest
        match verb.command? said with
        | none => .error .misuse
        | some command =>
          return ⟨said.config <|> front.config, front.verbose || said.verbose, command⟩

end Stencil.Cli
