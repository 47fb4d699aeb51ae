import Lisplet.Command.Basic
import Lisplet.Eval.Session
import Lisplet.Expr.Dump
import Lisplet.Expr.Printer
import Lisplet.Reader.Basic
import Lisplet.Report.Error
/-!
What a command does, as a function of the text in its file: what it writes to each stream, and the
status it exits with. A program may run for ever, so a command that runs one has an outcome only at a
depth of evaluation that is enough for the program to come to its end.
-/
namespace Lisplet

/-- How a command ends. -/
inductive ExitStatus where
  | success
  | unreadableFile
  | badUsage
  | badProgram
  | failedRun
  deriving DecidableEq, Repr

def ExitStatus.code : ExitStatus → Nat
  | .success => 0
  | .unreadableFile => 1
  | .badUsage => 2
  | .badProgram => 65
  | .failedRun => 70

/-- All that a command leaves behind. -/
structure Outcome where
  status : ExitStatus
  stdout : String := ""
  stderr : String := ""
  deriving DecidableEq, Repr

namespace Reading

def format (f : TokenFormat) : Reading → String
  | .ok t => match f with
    | .basic => t.kind.listing
    | .debug => t.dump.compact
  | .error e => match f with
    | .basic => e.listing
    | .debug => e.dump.compact

def isOk : Reading → Bool
  | .ok _ => true
  | .error _ => false

end Reading

def Script.format (s : Script) : ScriptFormat → String
  | .sexpr => s.text
  | .debug => s.dump.indented

namespace ReadError

def format (e : ReadError) : ScriptFormat → String
  | .sexpr => e.message
  | .debug => e.dump.compact

def formatRun (e : ReadError) (path source : String) : ErrorFormat → String
  | .basic => e.plain
  | .pretty => e.report.render path source

end ReadError

def EvalError.formatRun {ν : Type} (e : EvalError) (h : Heap ν) (path source : String) :
    ErrorFormat → String
  | .basic => e.plain h
  | .pretty => (e.report h).render path source

namespace Outcome

/-- Lines of text, each ended by a line feed. -/
def lines (texts : List String) : String := String.join (texts.map (· ++ "\n"))

/-- List the tokens; errors go to the other stream and do not end the list. -/
def tokenize (format : TokenFormat) (source : String) : Outcome :=
  let readings := (Scanner.ofText source).readings
  { status := if readings.all Reading.isOk then .success else .badProgram
    stdout := lines ((readings.filter Reading.isOk).map (Reading.format format))
    stderr := lines ((readings.filter (!Reading.isOk ·)).map (Reading.format format)) }

/-- Show the script. -/
def parse (format : ScriptFormat) (source : String) : Outcome :=
  match Script.ofText source with
  | .ok script => { status := .success, stdout := lines [script.format format] }
  | .error e => { status := .badProgram, stderr := lines [e.format format] }

/-- How a run that printed `printed` ends, if it comes to its end. -/
def runEnd (format : ErrorFormat) (path source : String) (h : Heap Builtin) (printed : String) :
    Except Ending Unit → Option Outcome
  | .ok _ => some { status := .success, stdout := printed }
  | .error (.failed e) => some
    { status := .failedRun, stdout := printed, stderr := lines [e.formatRun h path source format] }
  | .error _ => none

/-- Run the script, if the whole of it can be read. There is no outcome if the run does not come to its
end within the depth. -/
def run (depth : Nat) (format : ErrorFormat) (path source : String) : Option Outcome :=
  match Script.ofText source with
  | .error e => some { status := .badProgram, stderr := lines [e.formatRun path source format] }
  | .ok script =>
    let (result, session) := script.run depth Buffer.empty
    runEnd format path source session.world.heap session.world.sink.data result

end Outcome

/-- What a task does with the text that was read from `path`, if the depth is enough for it. -/
def Task.perform (depth : Nat) (path source : String) : Task → Option Outcome
  | .tokenize format => some (.tokenize format source)
  | .parse format => some (.parse format source)
  | .run format => Outcome.run depth format path source

namespace Command

def versionText : String := "pebble 0.1.0"

def usage : String :=
  "usage: pebble tokenize|parse|run PATH [--format FORMAT]\n       pebble --version"

/-- The file that the command reads. -/
def path? : Command → Option String
  | .version => none
  | .onFile _ path => some path

/-- What the command does if `source?` is the text in its file, and if the depth is enough for it. There
is no text if the file cannot be read. -/
def perform (depth : Nat) (source? : Option String) : Command → Option Outcome
  | .version => some { status := .success, stdout := Outcome.lines [versionText] }
  | .onFile task path =>
    match source? with
    | none => some { status := .unreadableFile, stderr := Outcome.lines ["cannot read " ++ path] }
    | some source => task.perform depth path source

/-- What the program does if its arguments make no command. -/
def refusal : Outcome := { status := .badUsage, stderr := Outcome.lines [usage] }

end Command
end Lisplet
