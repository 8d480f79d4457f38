import ThreeAddress.ExitCategory
import ThreeAddress.Frames
import ThreeAddress.Instruction
import ThreeAddress.Operation

/-!
What can go wrong while a program runs.
-/

namespace ThreeAddress

inductive OperandRole where
  | variable
  | label
  | type
  | symbol
  deriving DecidableEq, Repr

def OperandRole.name : OperandRole → String
  | .variable => "var"
  | .label => "label"
  | .type => "type"
  | .symbol => "symbol"

namespace Machine

inductive Fault where
  | missingArgument (opcode : Opcode) (position : Nat)
  | unexpectedArgument (opcode : Opcode) (position : Nat)
  | badArgument (opcode : Opcode) (position : Nat) (expected : OperandRole) (found : String)
  | unknownLabel (name : String)
  | frames (fault : Frames.Fault)
  | operation (opcode : Opcode) (fault : Operation.Fault)
  | dataStackUnderflow
  | callStackEmpty
  | exitCodeOutOfRange (code : Int64)
  | output (reason : String)
  deriving DecidableEq, Repr

structure Failure where
  order : Order
  fault : Fault
  deriving DecidableEq, Repr

namespace Fault

def category : Fault → ExitCategory
  | missingArgument _ _ | unexpectedArgument _ _ | badArgument _ _ _ _ => .malformedProgram
  | unknownLabel _ => .semantic
  | frames (.redefinition _) => .semantic
  | frames (.undeclared _) => .undeclaredVariable
  | frames (.missing _) => .missingFrame
  | frames (.uninitialized _) => .missingValue
  | dataStackUnderflow | callStackEmpty => .missingValue
  | operation _ .typeMismatch => .operandType
  | operation _ .divisionByZero | operation _ .floatOutOfRange => .badValue
  | exitCodeOutOfRange _ => .badValue
  | operation _ (.indexOutOfRange _ _) | operation _ (.invalidOrdinal _)
  | operation _ .emptyReplacement => .badString
  | output _ => .internal

end Fault

namespace Failure

def category (e : Failure) : ExitCategory := e.fault.category

def message (e : Failure) : String :=
  let place := s!"at instruction {e.order.toInt}"
  match e.fault with
  | .missingArgument opcode position => s!"{opcode.mnemonic} {place}: missing arg{position}"
  | .unexpectedArgument opcode position => s!"{opcode.mnemonic} {place}: unexpected arg{position}"
  | .badArgument opcode position expected found =>
    s!"{opcode.mnemonic} {place}: arg{position} must be {expected.name}, found {found}"
  | .unknownLabel name => s!"undefined label '{name}' {place}"
  | .frames (.redefinition v) => s!"variable {v.render} redefined {place}"
  | .frames (.undeclared v) => s!"undeclared variable {v.render} {place}"
  | .frames (.missing kind) => s!"frame {kind.name} does not exist {place}"
  | .frames (.uninitialized v) => s!"uninitialized variable {v.render} {place}"
  | .operation opcode .typeMismatch => s!"{opcode.mnemonic} {place}: operand type mismatch"
  | .operation _ .divisionByZero => s!"division by zero {place}"
  | .operation _ .floatOutOfRange => s!"float not representable as int {place}"
  | .operation _ (.indexOutOfRange index length) =>
    s!"index {index.toInt} out of range (length {length}) {place}"
  | .operation _ (.invalidOrdinal n) => s!"invalid character ordinal {n.toInt} {place}"
  | .operation _ .emptyReplacement => s!"SETCHAR with empty replacement {place}"
  | .dataStackUnderflow => s!"data stack underflow {place}"
  | .callStackEmpty => s!"RETURN with empty call stack {place}"
  | .exitCodeOutOfRange code => s!"exit code {code.toInt} out of range 0..=49 {place}"
  | .output reason => s!"output error {place}: {reason}"

end Failure

end Machine

end ThreeAddress
