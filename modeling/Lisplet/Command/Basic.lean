/-!
The command line. A command names what to do with a file and, if asked to, how to show the outcome.
After the name of the command, the file and the format may stand in any order; two dashes alone end
the options.
-/
namespace Lisplet

inductive TokenFormat where
  | basic
  | debug
  deriving DecidableEq, Repr

inductive ScriptFormat where
  | sexpr
  | debug
  deriving DecidableEq, Repr

inductive ErrorFormat where
  | pretty
  | basic
  deriving DecidableEq, Repr

/-- What to do with a file. -/
inductive Task where
  | tokenize (format : TokenFormat)
  | parse (format : ScriptFormat)
  | run (format : ErrorFormat)
  deriving DecidableEq, Repr

inductive Command where
  | version
  | onFile (task : Task) (path : String)
  deriving DecidableEq, Repr

namespace TokenFormat

def ofName? : String → Option TokenFormat
  | "basic" => some .basic
  | "debug" => some .debug
  | _ => none

end TokenFormat

namespace ScriptFormat

def ofName? : String → Option ScriptFormat
  | "sexpr" => some .sexpr
  | "debug" => some .debug
  | _ => none

end ScriptFormat

namespace ErrorFormat

def ofName? : String → Option ErrorFormat
  | "pretty" => some .pretty
  | "basic" => some .basic
  | _ => none

end ErrorFormat

namespace Task

/-- The task of the given name; without a format it has its default one. -/
def ofName? : String → Option String → Option Task
  | "tokenize", none => some (.tokenize .basic)
  | "tokenize", some format => (TokenFormat.ofName? format).map .tokenize
  | "parse", none => some (.parse .sexpr)
  | "parse", some format => (ScriptFormat.ofName? format).map .parse
  | "run", none => some (.run .pretty)
  | "run", some format => (ErrorFormat.ofName? format).map .run
  | _, _ => none

end Task

namespace Command

/-- What follows the name of a command: files and formats, each in order. -/
structure Operands where
  paths : List String := []
  formats : List String := []

namespace Operands

def addPath (o : Operands) (path : String) : Operands := { o with paths := o.paths ++ [path] }

def addFormat (o : Operands) (format : String) : Operands :=
  { o with formats := o.formats ++ [format] }

/-- An argument that begins with a dash is an option, except for a dash alone. -/
def isOption (argument : String) : Bool := argument.startsWith "-" && argument != "-"

/-- Sort arguments into files and formats. Unknown options are refused. -/
def ofArguments? (o : Operands) : List String → Option Operands
  | [] => some o
  | "--" :: rest => some (rest.foldl addPath o)
  | "--format" :: format :: rest =>
    if isOption format then none else ofArguments? (o.addFormat format) rest
  | argument :: rest =>
    if argument.startsWith "--format=" then
      ofArguments? (o.addFormat (argument.drop 9).copy) rest
    else if isOption argument then none
    else ofArguments? (o.addPath argument) rest

end Operands

/-- The command that the arguments make, if they make one: exactly one file, which has a name, and
at most one format. -/
def ofArguments? : List String → Option Command
  | "--version" :: _ | "-V" :: _ => some .version
  | name :: arguments => do
    let operands ← Operands.ofArguments? {} arguments
    match operands with
    | ⟨[path], formats⟩ =>
      if path.isEmpty || formats.length > 1 then none
      else return .onFile (← Task.ofName? name formats.head?) path
    | _ => none
  | [] => none

end Command
end Lisplet
