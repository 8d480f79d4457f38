import ThreeAddress.Session

/-!
The interpreter as a program.
-/

namespace ThreeAddress.Main

open Machine (State Status Failure)
open Session (Files)

def reason : IO.Error → String
  | .noFileOrDirectory _ code details => s!"{details} (os error {code})"
  | .inappropriateType _ code details => s!"{details} (os error {code})"
  | .permissionDenied _ code details => s!"{details} (os error {code})"
  | .resourceExhausted _ code details => s!"{details} (os error {code})"
  | .resourceVanished code details => s!"{details} (os error {code})"
  | e => toString e

partial def readToEnd (stream : IO.FS.Stream) (bytes : ByteArray) : IO ByteArray := do
  let piece ← stream.read 4096
  if piece.isEmpty then pure bytes else readToEnd stream (bytes ++ piece)

/-- The bytes up to the next newline, which is included. -/
partial def readLine (stream : IO.FS.Stream) (bytes : ByteArray) : IO ByteArray := do
  let piece ← stream.read 1
  if piece.isEmpty || piece.toList == [ByteStream.newline] then pure (bytes ++ piece)
  else readLine stream (bytes ++ piece)

/-- Standard input is left alone until a line of it is asked for. -/
def files : Files IO where
  contents path := do
    try
      let handle ← IO.FS.Handle.mk path .read
      let bytes ← handle.readBinToEnd
      pure (.ok bytes)
    catch e => pure (.error (reason e))
  lines path := do
    try
      let handle ← IO.FS.Handle.mk path .read
      let bytes ← try handle.readBinToEnd catch _ => pure .empty
      pure (.ok (.ofBytes bytes.toList))
    catch e => pure (.error (reason e))
  standardContents := do
    readToEnd (← IO.getStdin) .empty
  standardLines := pure {}

/-- Gives the machine a line of standard input if it is about to read one and has none. -/
def feed (p : Program) (s : State) : IO State := do
  if s.input.pending.isEmpty && (p.after? s.pc).any (·.opcode == .read) then
    let bytes ← try readLine (← IO.getStdin) .empty catch _ => pure .empty
    pure { s with input := .ofBytes bytes.toList }
  else
    pure s

def drain (s : State) : IO Unit := do
  (← IO.getStdout).putStr s.output.taken
  let errors ← IO.getStderr
  errors.putStr s.diagnostics.taken
  errors.flush

def drained (s : State) : State := { s with output := {}, diagnostics := {} }

def orFailure (s : State) (outcome : Except Failure Nat) (action : IO Unit) :
    IO (Except Failure Nat) :=
  match outcome with
  | .error e => do
    try action catch _ => pure ()
    pure (.error e)
  | .ok code =>
    try
      action
      pure (.ok code)
    catch e => pure (.error ⟨s.pc, .output (reason e)⟩)

partial def loop (p : Program) (interactive : Bool) (s : State) :
    IO (Except Failure Nat × State) := do
  let s ← if interactive then feed p s else pure s
  let (result, t) := s.step p
  match ← orFailure t (.ok 0) (drain t) with
  | .error e => pure (.error e, drained t)
  | .ok _ =>
    match t.conclude result with
    | some outcome =>
      let outcome ← orFailure t outcome (do (← IO.getStdout).flush)
      pure (outcome, drained t)
    | none => loop p interactive (drained t)

def finish (ending : Session.Ending) : IO UInt32 := do
  (← IO.getStdout).putStr ending.output
  (← IO.getStderr).putStr ending.errors
  pure (UInt32.ofNat ending.code)

end ThreeAddress.Main

open ThreeAddress in
def main (arguments : List String) : IO UInt32 := do
  match ← Session.start Main.files arguments with
  | .error ending => Main.finish ending
  | .ok (p, s) =>
    let interactive := match CommandLine.parse arguments with
      | .ok (.run settings) => settings.input.isNone
      | _ => false
    let (outcome, t) ← Main.loop p interactive s
    Main.finish (Session.finish outcome t)
