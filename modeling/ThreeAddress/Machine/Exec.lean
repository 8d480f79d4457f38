import ThreeAddress.Machine.Fault
import ThreeAddress.Machine.State

/-!
Computations on the state of the machine. One that fails ends there, and what it had changed
before stays changed.
-/

namespace ThreeAddress.Machine

def Exec (α : Type) : Type := State → Except Fault α × State

namespace Exec

variable {α β : Type}

protected def pure (a : α) : Exec α := fun s => (.ok a, s)

protected def bind (x : Exec α) (f : α → Exec β) : Exec β := fun s =>
  match x s with
  | (.ok a, t) => f a t
  | (.error fault, t) => (.error fault, t)

instance : Monad Exec where
  pure := Exec.pure
  bind := Exec.bind

/-- Looks at the state, which may fail. -/
def ask (f : State → Except Fault α) : Exec α := fun s => (f s, s)

theorem ask_bind_of_ok {f : State → Except Fault α} {g : α → Exec β} {s : State} {a : α}
    (h : f s = .ok a) : (ask f >>= g) s = g a s := by
  change Exec.bind (ask f) g s = _
  rw [Exec.bind, ask, h]

theorem ask_bind_of_error {f : State → Except Fault α} {g : α → Exec β} {s : State}
    {fault : Fault} (h : f s = .error fault) : (ask f >>= g) s = (.error fault, s) := by
  change Exec.bind (ask f) g s = _
  rw [Exec.bind, ask, h]

instance : MonadLift (Except Fault) Exec where
  monadLift x := ask fun _ => x

def fail (fault : Fault) : Exec α := ask fun _ => .error fault

def modify (f : State → State) : Exec Unit := fun s => (.ok (), f s)

def goTo (order : Order) : Exec Unit := modify fun s => { s with pc := order }

def changeFrames (f : Frames → Except Frames.Fault Frames) : Exec Unit := fun s =>
  match f s.frames with
  | .ok frames => (.ok (), { s with frames := frames })
  | .error fault => (.error (.frames fault), s)

def store (v : Variable) (value : Value) : Exec Unit := changeFrames fun fs => fs.assign v value

def pushData (value : Value) : Exec Unit := modify fun s => { s with data := value :: s.data }

def popData : Exec Value := fun s =>
  match s.data with
  | value :: rest => (.ok value, { s with data := rest })
  | [] => (.error .dataStackUnderflow, s)

def dropData (n : Nat) : Exec Unit := modify fun s => { s with data := s.data.drop n }

def pushCall : Exec Unit := modify fun s => { s with calls := s.pc :: s.calls }

def popCall : Exec Order := fun s =>
  match s.calls with
  | order :: rest => (.ok order, { s with calls := rest })
  | [] => (.error .callStackEmpty, s)

def nextLine : Exec (Option String) := fun s =>
  let (line, rest) := s.input.next
  (.ok line, { s with input := rest })

def emit (text : String) : Exec Unit := fun s =>
  match s.output.write s.executed text with
  | .ok channel => (.ok (), { s with output := channel })
  | .error reason => (.error (.output reason), s)

def writeDiagnostics (text : String) : Exec Unit := fun s =>
  match s.diagnostics.write s.executed text with
  | .ok channel => (.ok (), { s with diagnostics := channel })
  | .error reason => (.error (.output reason), s)

def flushDiagnostics : Exec Unit :=
  ask fun s => (s.diagnostics.flush s.executed).mapError .output

def diagnose (text : String) : Exec Unit := do
  writeDiagnostics text
  flushDiagnostics

end Exec

end ThreeAddress.Machine
