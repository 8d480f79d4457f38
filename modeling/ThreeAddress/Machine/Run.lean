import ThreeAddress.Machine.Step

/-!
Runs of the machine. A run need not end, so the number of steps is bounded here.
-/

namespace ThreeAddress.Machine.State

/-- At most `n` steps, up to the first one that halts or fails. -/
def advance (p : Program) : Nat → State → Except Failure Status × State
  | 0, s => (.ok .running, s)
  | n + 1, s =>
    match s.step p with
    | (.ok .running, t) => t.advance p n
    | result => result

/-- The state after `n` steps, whatever they came to. -/
def afterSteps (p : Program) : Nat → State → State
  | 0, s => s
  | n + 1, s => (s.step p).2.afterSteps p n

def visited (p : Program) : Nat → State → List State
  | 0, _ => []
  | n + 1, s => s :: (s.step p).2.visited p n

def flush (s : State) : Except Failure Unit :=
  ((do s.output.flush s.executed; s.diagnostics.flush s.executed) : Except String Unit).mapError
    fun reason => ⟨s.pc, .output reason⟩

/-- How a run that has come to its end turned out; nothing if it has not. A failure of the last
flush counts only if no step failed. -/
def conclude (s : State) (result : Except Failure Status) : Option (Except Failure Nat) :=
  match result with
  | .ok .running => none
  | .ok (.halted code) => some (s.flush.map fun _ => code)
  | .error e => some (.error e)

def execute? (p : Program) (n : Nat) (s : State) : Option (Except Failure Nat × State) :=
  let (result, t) := s.advance p n
  (t.conclude result).map fun outcome => (outcome, t)

end ThreeAddress.Machine.State
