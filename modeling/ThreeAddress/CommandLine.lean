import ThreeAddress.ExitCategory

/-!
The command line.
-/

namespace ThreeAddress.CommandLine

inductive Flag where
  | source
  | input
  deriving DecidableEq, Repr

def Flag.name : Flag → String
  | source => "--source"
  | input => "--input"

inductive Error where
  | unknownArgument (argument : String)
  | missingValue (flag : Flag)
  | repeated (flag : Flag)
  | helpWithOthers
  | nothingToRead
  deriving DecidableEq, Repr

def Error.message : Error → String
  | unknownArgument argument => s!"unknown argument '{argument}'"
  | missingValue flag => s!"{flag.name} requires a value (use {flag.name}=FILE)"
  | repeated flag => s!"{flag.name} given more than once"
  | helpWithOthers => "--help cannot be combined with other arguments"
  | nothingToRead => "at least one of --source or --input is required"

def Error.category : Error → ExitCategory := fun _ => .invalidParameters

/-- The files of the program and of its input; standard input stands in for one not named. -/
structure Settings where
  source : Option String := none
  input : Option String := none
  deriving DecidableEq, Repr

inductive Invocation where
  | help
  | run (settings : Settings)
  deriving DecidableEq, Repr

def usage : String :=
  "Usage: interpret [--source=FILE] [--input=FILE]
       interpret --help

Executes an IPPcode22 program given in its XML representation.

Options:
  --source=FILE   XML source of the program
  --input=FILE    lines consumed by READ
  --help          print this message

At least one of --source and --input is required; the other is read from
standard input.

Environment:
  IPP_LOG         tracing filter for diagnostics on stderr (e.g. debug)
"

def flag? (argument : String) : Option (Flag × List Char) :=
  [Flag.source, Flag.input].findSome? fun flag =>
    (flag.name.toList.isPrefixOf? argument.toList).map fun rest => (flag, rest)

namespace Settings

def get? (s : Settings) : Flag → Option String
  | .source => s.source
  | .input => s.input

def set (s : Settings) (flag : Flag) (value : String) : Settings :=
  match flag with
  | .source => { s with source := some value }
  | .input => { s with input := some value }

def add (s : Settings) (argument : String) : Except Error Settings :=
  match flag? argument with
  | none => .error (.unknownArgument argument)
  | some (flag, []) => .error (.missingValue flag)
  | some (flag, ['=']) => .error (.missingValue flag)
  | some (flag, '=' :: value) =>
    if (s.get? flag).isSome then .error (.repeated flag)
    else .ok (s.set flag (String.ofList value))
  | some _ => .error (.unknownArgument argument)

end Settings

def parse (arguments : List String) : Except Error Invocation :=
  if "--help" ∈ arguments then
    if arguments.length = 1 then .ok .help else .error .helpWithOthers
  else do
    let settings ← arguments.foldlM Settings.add {}
    if settings = {} then .error .nothingToRead else .ok (.run settings)

end ThreeAddress.CommandLine
