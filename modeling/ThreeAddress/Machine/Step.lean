import ThreeAddress.Machine.Action
import ThreeAddress.Machine.Exec
import ThreeAddress.Program

/-!
One step of the machine. An instruction reads its operands from left to right, and the first
fault ends it.
-/

namespace ThreeAddress

/-- A kind of operand, of which there is one for each value of a type. -/
structure OperandKind (α : Type) where
  role : OperandRole
  wrap : α → Operand
  unwrap? : Operand → Option α
  unwrap?_eq_some : ∀ {a b}, unwrap? a = some b ↔ a = wrap b := by
    intro a b
    cases a <;> simp

def OperandKind.variable : OperandKind Variable where
  role := .variable
  wrap := .var
  unwrap?
    | .var v => some v
    | _ => none

def OperandKind.label : OperandKind String where
  role := .label
  wrap := .label
  unwrap?
    | .label name => some name
    | _ => none

def OperandKind.type : OperandKind TypeTag where
  role := .type
  wrap := .type
  unwrap?
    | .type tag => some tag
    | _ => none

namespace Instruction

open Machine

/-- The first operand that is missing, or present beyond the arity. -/
def arityFault? (i : Instruction) : Option Fault :=
  [1, 2, 3].findSome? fun position =>
    match i.get? position with
    | none =>
      if position ≤ i.opcode.arity then some (.missingArgument i.opcode position) else none
    | some _ =>
      if i.opcode.arity < position then some (.unexpectedArgument i.opcode position) else none

def operand (i : Instruction) (position : Nat) : Except Fault Operand :=
  match i.get? position with
  | some a => .ok a
  | none => .error (.missingArgument i.opcode position)

section

variable {α : Type} (i : Instruction) (position : Nat)

def operandOf (kind : OperandKind α) : Except Fault α := do
  let a ← i.operand position
  match kind.unwrap? a with
  | some b => .ok b
  | none => .error (.badArgument i.opcode position kind.role a.kind)

/-- What a symbol stands for: a constant does for itself, a variable for what is found there. -/
def symbolBy (constant : Value → α) (find : Variable → Except Frames.Fault α) :
    Except Fault α := do
  match ← i.operand position with
  | .const value => .ok (constant value)
  | .var v => (find v).mapError .frames
  | a => .error (.badArgument i.opcode position .symbol a.kind)

def variableAt : Except Fault Variable := i.operandOf position .variable

def labelAt : Except Fault String := i.operandOf position .label

def typeAt : Except Fault TypeTag := i.operandOf position .type

variable {i position}

theorem operandOf_eq_ok {kind : OperandKind α} {b : α} :
    i.operandOf position kind = .ok b ↔ i.get? position = some (kind.wrap b) := by
  rw [operandOf, operand]
  cases i.get? position with
  | none => simp [bind, Except.bind]
  | some a =>
    rw [Option.some_inj, ← kind.unwrap?_eq_some]
    cases h : kind.unwrap? a <;> simp [h, bind, Except.bind]

end

end Instruction

namespace Machine

inductive Status where
  | running
  | halted (code : Nat)
  deriving DecidableEq, Repr

namespace State

def symbol (s : State) (i : Instruction) (position : Nat) : Except Fault Value :=
  i.symbolBy position id s.frames.read

/-- The value of a constant or of a declared variable, which need not have one. -/
def symbolOrVacant (s : State) (i : Instruction) (position : Nat) :
    Except Fault (Option Value) :=
  i.symbolBy position some s.frames.lookup

def ensureDeclared (s : State) (v : Variable) : Except Fault Unit :=
  ((s.frames.lookup v).map fun _ => ()).mapError .frames

def top (s : State) : Except Fault Value :=
  match s.data with
  | a :: _ => .ok a
  | _ => .error .dataStackUnderflow

/-- The topmost two values, the lower one first, left in their places. -/
def topTwo (s : State) : Except Fault (Value × Value) :=
  match s.data with
  | b :: a :: _ => .ok (a, b)
  | _ => .error .dataStackUnderflow

end State

def compute {α : Type} (i : Instruction) (result : Except Operation.Fault α) : Except Fault α :=
  result.mapError (.operation i.opcode)

def target (p : Program) (i : Instruction) (position : Nat) : Except Fault Order := do
  let name ← i.labelAt position
  (p.resolve name).mapError fun _ => .unknownLabel name

open Exec

def perform (p : Program) (i : Instruction) : Action → Exec Unit
  | .createFrame => changeFrames fun fs => .ok fs.create
  | .pushFrame => changeFrames Frames.push
  | .popFrame => changeFrames Frames.pop
  | .declare => do
    let v ← i.variableAt 1
    changeFrames fun fs => fs.declare v
  | .call => do
    let order ← target p i 1
    pushCall
    goTo order
  | .returnBack => do
    let order ← popCall
    goTo order
  | .jump => do
    let order ← target p i 1
    goTo order
  | .jumpIf equal => do
    let order ← target p i 1
    let a ← ask fun s => s.symbol i 2
    let b ← ask fun s => s.symbol i 3
    let result ← compute i (Operation.equals a b)
    if result = equal then goTo order
  | .move => do
    let v ← i.variableAt 1
    let value ← ask fun s => s.symbol i 2
    store v value
  | .push => do
    let value ← ask fun s => s.symbol i 1
    pushData value
  | .pop => do
    let v ← i.variableAt 1
    ask fun s => s.ensureDeclared v
    let value ← popData
    store v value
  | .clear => modify fun s => { s with data := [] }
  | .binary op => do
    let v ← i.variableAt 1
    let a ← ask fun s => s.symbol i 2
    let b ← ask fun s => s.symbol i 3
    let value ← compute i (op.apply a b)
    store v value
  | .unary op => do
    let v ← i.variableAt 1
    let a ← ask fun s => s.symbol i 2
    let value ← compute i (op.apply a)
    store v value
  | .setChar => do
    let v ← i.variableAt 1
    let current ← ask fun s => (s.frames.read v).mapError .frames
    let index ← ask fun s => s.symbol i 2
    let replacement ← ask fun s => s.symbol i 3
    let value ← compute i (Operation.setChar current index replacement)
    store v value
  | .typeOf => do
    let v ← i.variableAt 1
    let value ← ask fun s => s.symbolOrVacant i 2
    store v (Operation.typeName value)
  | .stackBinary op => do
    let (a, b) ← ask State.topTwo
    let value ← compute i (op.apply a b)
    dropData 2
    pushData value
  | .stackUnary op => do
    let a ← ask State.top
    let value ← compute i (op.apply a)
    dropData 1
    pushData value
  | .stackJumpIf equal => do
    let order ← target p i 1
    let (a, b) ← ask State.topTwo
    let result ← compute i (Operation.equals a b)
    dropData 2
    if result = equal then goTo order
  | .read => do
    let v ← i.variableAt 1
    let requested ← i.typeAt 2
    if requested.readable then
      ask fun s => s.ensureDeclared v
      let line ← nextLine
      store v (Input.value line requested)
    else
      fail (.operation i.opcode .typeMismatch)
  | .write => do
    let value ← ask fun s => s.symbol i 1
    emit value.render
  | .print => do
    let value ← ask fun s => s.symbol i 1
    diagnose value.render
  | .report => do
    let text ← ask fun s => .ok s.report
    diagnose text
  | .proceed | .exit => pure ()

def State.exitCode (s : State) (i : Instruction) : Except Fault Nat := do
  match ← s.symbol i 1 with
  | .int n =>
    if 0 ≤ n ∧ n ≤ 49 then .ok n.toInt.toNat else .error (.exitCodeOutOfRange n)
  | _ => .error (.operation i.opcode .typeMismatch)

def dispatch (p : Program) (i : Instruction) : Exec Status := do
  match Action.ofOpcode i.opcode with
  | .exit =>
    let code ← ask fun s => s.exitCode i
    return .halted code
  | action =>
    perform p i action
    return .running

/-- Fetches the next instruction and carries it out. After the last one the machine halts. An
instruction whose operands do not fit its arity is not counted as executed. -/
def State.step (p : Program) (s : State) : Except Failure Status × State :=
  match p.after? s.pc with
  | none => (.ok (.halted 0), s)
  | some i =>
    let s := { s with pc := i.order }
    match i.arityFault? with
    | some fault => (.error ⟨i.order, fault⟩, s)
    | none =>
      let (result, t) := dispatch p i { s with executed := s.executed + 1 }
      (result.mapError (Failure.mk i.order), t)

end Machine

end ThreeAddress
