import Stencil.Cli

/-!
The program. Its arguments are those of the command line, and the files it works on come in one
line of JSON on standard input: an object from paths to texts. Output goes to standard output and a
line for each error to standard error.
-/

namespace Stencil.Cli

/-- The files in an object from paths to texts. What is no text is left out. -/
def Files.ofJson : Json → Files
  | .object members => .ofList (members.entries.filterMap fun m =>
      match m.2 with
      | .string text => some (m.1, text)
      | _ => none)
  | _ => .ofList []

end Stencil.Cli

/-- Runs the command line. -/
def main (args : List String) : IO UInt32 := do
  let input ← (← IO.getStdin).getLine
  let files := (Stencil.Json.read? input).elim (.ofList []) Stencil.Cli.Files.ofJson
  let outcome := Stencil.Cli.run files args
  IO.print outcome.stdout
  for e in outcome.errors do
    IO.eprintln e.report
  return outcome.code.toUInt32
