import ThreeAddress.Opcode
import ThreeAddress.Operand

/-!
Instructions: an order, an opcode and three places for operands, each of which may be vacant.
-/

namespace ThreeAddress

/-- Instructions run in ascending order; jumps and returns go to an order. -/
abbrev Order := Int64

structure Instruction where
  order : Order
  opcode : Opcode
  arg1 : Option Operand := none
  arg2 : Option Operand := none
  arg3 : Option Operand := none
  deriving DecidableEq, Repr

namespace Instruction

def get? (i : Instruction) : Nat → Option Operand
  | 1 => i.arg1
  | 2 => i.arg2
  | 3 => i.arg3
  | _ => none

def set (i : Instruction) (position : Nat) (a : Operand) : Instruction :=
  match position with
  | 1 => { i with arg1 := some a }
  | 2 => { i with arg2 := some a }
  | 3 => { i with arg3 := some a }
  | _ => i

theorem get?_set_of_ne {i : Instruction} {k position : Nat} {a : Operand} (h : k ≠ position) :
    (i.set position a).get? k = i.get? k := by
  unfold set get?
  repeat' split
  all_goals first | rfl | omega

theorem get?_set_self {i : Instruction} {position : Nat} {a : Operand}
    (h : 1 ≤ position ∧ position ≤ 3) : (i.set position a).get? position = some a := by
  obtain rfl | rfl | rfl : position = 1 ∨ position = 2 ∨ position = 3 := by omega
  all_goals rfl

theorem set_comm {i : Instruction} {m n : Nat} (h : m ≠ n) (a b : Operand) :
    (i.set m a).set n b = (i.set n b).set m a := by
  unfold set
  repeat' split
  all_goals first | rfl | omega

def args (i : Instruction) : List (Option Operand) := [i.arg1, i.arg2, i.arg3]

/-- The length of the unbroken run of operands from the first position on. -/
def leading (i : Instruction) : Nat := (i.args.takeWhile Option.isSome).length

def push (i : Instruction) (a : Operand) : Instruction := i.set (i.leading + 1) a

/-- The first operand that stands after a vacant position, and the first vacant position. -/
def gap? (i : Instruction) : Option (Nat × Nat) :=
  match i.arg1, i.arg2, i.arg3 with
  | none, some _, _ => some (2, 1)
  | none, none, some _ => some (3, 1)
  | some _, none, some _ => some (3, 2)
  | _, _, _ => none

def declaredLabel? (i : Instruction) : Option String :=
  match i.opcode, i.arg1 with
  | .label, some (.label name) => some name
  | _, _ => none

def render (i : Instruction) : String :=
  " ".intercalate
    (toString i.order.toInt :: i.opcode.mnemonic :: (i.args.filterMap id).map Operand.render)

end Instruction

end ThreeAddress
