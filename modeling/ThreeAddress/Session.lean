import ThreeAddress.CommandLine
import ThreeAddress.Folder
import ThreeAddress.Machine.Run
import ThreeAddress.Source

/-!
A session: from the arguments of the command line to an exit code and the texts on the two
standard channels. Files are reached through `Files`, so that a session can be run on a folder
in memory as well as on the file system.
-/

namespace ThreeAddress.Session

open Machine (State Failure)

inductive Error where
  | usage (e : CommandLine.Error)
  | file (path reason : String)
  | source (e : Source.Error)
  | machine (e : Failure)
  deriving DecidableEq, Repr

namespace Error

def message : Error → String
  | usage e => e.message
  | file path reason => s!"cannot read '{path}': {reason}"
  | source e => e.message
  | machine e => e.message

def category : Error → ExitCategory
  | usage e => e.category
  | file _ _ => .inputFile
  | source e => e.category
  | machine e => e.category

end Error

structure Ending where
  code : Nat
  output : String := ""
  errors : String := ""
  deriving DecidableEq, Repr

/-- The line on the error channel comes after the diagnostics of the program. -/
def Ending.ofError (e : Error) (output diagnostics : String := "") : Ending where
  code := e.category.code
  output := output
  errors := diagnostics ++ "error: " ++ e.message ++ "\n"

def Ending.help : Ending where
  code := 0
  output := String.ofList (Text.trim CommandLine.usage.toList) ++ "\n"

/-- The ways to what a session reads. A file is given by its contents or by the reason why it
cannot be had. -/
structure Files (m : Type → Type) where
  contents : String → m (Except String ByteArray)
  lines : String → m (Except String Input)
  standardContents : m ByteArray
  standardLines : m Input

/-- The program and its input. The program is loaded before the input is opened. -/
def prepare {m : Type → Type} [Monad m] (files : Files m) (settings : CommandLine.Settings) :
    m (Except Error (Program × Input)) := do
  let contents ← match settings.source with
    | some path => do
      let contents ← files.contents path
      pure (contents.mapError (Error.file path))
    | none => do
      let contents ← files.standardContents
      pure (.ok contents)
  match contents.bind fun bytes => (Source.loadBytes bytes).mapError Error.source with
  | .error e => pure (.error e)
  | .ok program =>
    match settings.input with
    | some path => do
      let lines ← files.lines path
      pure ((lines.mapError (Error.file path)).map fun input => (program, input))
    | none => do
      let input ← files.standardLines
      pure (.ok (program, input))

def start {m : Type → Type} [Monad m] (files : Files m) (arguments : List String) :
    m (Except Ending (Program × State)) := do
  match CommandLine.parse arguments with
  | .error e => pure (.error (.ofError (.usage e)))
  | .ok .help => pure (.error .help)
  | .ok (.run settings) => do
    let prepared ← prepare files settings
    pure (match prepared with
      | .error e => .error (.ofError e)
      | .ok (program, input) => .ok (program, { input := input }))

def finish (outcome : Except Failure Nat) (s : State) : Ending :=
  match outcome with
  | .ok code => { code := code, output := s.output.taken, errors := s.diagnostics.taken }
  | .error e => .ofError (.machine e) s.output.taken s.diagnostics.taken

/-- The files of a folder in memory. A folder can be opened for its lines, but has none. -/
def Files.ofFolder (folder : Folder) (standardInput : ByteArray) : Files Id where
  contents path := pure (match folder.resolve path with
    | .ok (.file bytes) => .ok bytes
    | .ok .folder => .error Folder.Fault.isFolder.message
    | .error fault => .error fault.message)
  lines path := pure (match folder.resolve path with
    | .ok (.file bytes) => .ok (.ofBytes bytes.toList)
    | .ok .folder => .ok {}
    | .error fault => .error fault.message)
  standardContents := pure standardInput
  standardLines := pure (.ofBytes standardInput.toList)

end ThreeAddress.Session
