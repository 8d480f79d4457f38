import ThreeAddress.Channel
import ThreeAddress.Frames
import ThreeAddress.Input
import ThreeAddress.Instruction

/-!
States of the machine and the report on them.
-/

namespace ThreeAddress.Machine

structure State where
  frames : Frames := {}
  /-- The data stack, the topmost value first. -/
  data : List Value := []
  /-- The orders of the calls that have not returned, the latest first. -/
  calls : List Order := []
  /-- The order of the instruction that was fetched last, or of the place jumped to. -/
  pc : Order := 0
  /-- The number of instructions carried out or tried. It has no bound, while a counter of 64 bits
  would start again after `2 ^ 64` of them. -/
  executed : Nat := 0
  input : Input := {}
  output : Channel := {}
  diagnostics : Channel := {}

namespace State

def fresh (input : Input) (output diagnostics : Gate) : State where
  input := input
  output := { gate := output }
  diagnostics := { gate := diagnostics }

def listed (texts : List String) : String := "[" ++ ", ".intercalate texts ++ "]"

/-- The report on a state; stacks are shown from the bottom. -/
def report (s : State) : String :=
  "position: instruction " ++ toString s.pc.toInt ++
  "\nexecuted: " ++ toString s.executed ++
  "\nGF: " ++ s.frames.global.render ++
  "\nTF: " ++ (s.frames.temporary.map Frame.render).getD "undefined" ++
  "\nframe stack: " ++ listed (s.frames.locals.reverse.map Frame.render) ++
  "\ncall stack: " ++ listed (s.calls.reverse.map fun order => toString order.toInt) ++
  "\ndata stack: " ++ listed (s.data.reverse.map Value.typed) ++ "\n"

end State

end ThreeAddress.Machine
