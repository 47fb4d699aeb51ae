import Lisplet.Command.Outcome
/-!
The program: read the file that the command names, do what the command says, and exit.
-/
namespace Lisplet

/-- The text in a file, if it can be read. -/
def readSource? (path : String) : IO (Option String) := do
  try
    return some (← IO.FS.readFile path)
  catch _ =>
    return none

/-- What the command leaves behind. Where a depth is not enough for it, one twice as deep is tried; for a
program that runs for ever none is. -/
partial def Command.complete (command : Command) (source? : Option String) (depth : Nat) :
    IO Outcome := do
  match command.perform depth source? with
  | some outcome => return outcome
  | none => command.complete source? (2 * depth)

/-- Write both streams; the result is the exit code. -/
def Outcome.emit (o : Outcome) : IO UInt32 := do
  IO.print o.stdout
  IO.eprint o.stderr
  return o.status.code.toUInt32

end Lisplet

open Lisplet in
def main (arguments : List String) : IO UInt32 := do
  match Command.ofArguments? arguments with
  | none => Command.refusal.emit
  | some command =>
    let source? ← match command.path? with
      | none => pure none
      | some path => readSource? path
    (← command.complete source? 1000000).emit
