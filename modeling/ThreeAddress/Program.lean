import ThreeAddress.ExitCategory
import ThreeAddress.Instruction
import ThreeAddress.Table

/-!
Programs: instructions by their orders, and the labels that they declare. A program is built by
adding instructions one at a time, in any sequence.
-/

namespace ThreeAddress

structure Program where
  instructions : Table Order Instruction := .empty
  labels : Table String Order := .empty
  /-- The largest order in the program, zero if there is none. -/
  maxOrder : Order := 0
  deriving DecidableEq, Repr

namespace Program

inductive Error where
  | invalidOrder (order : Order)
  | duplicateOrder (order : Order)
  | argumentGap (order : Order) (position missing : Nat)
  | missingLabelName (order : Order)
  | labelRedefinition (name : String)
  | unknownLabel (name : String)
  deriving DecidableEq, Repr

def Error.message : Error → String
  | invalidOrder order => s!"invalid instruction order {order.toInt}"
  | duplicateOrder order => s!"duplicate instruction order {order.toInt}"
  | argumentGap order position missing =>
    s!"instruction {order.toInt}: arg{position} present without arg{missing}"
  | missingLabelName order => s!"instruction {order.toInt}: LABEL requires a label argument"
  | labelRedefinition name => s!"label '{name}' is already defined"
  | unknownLabel name => s!"undefined label '{name}'"

def Error.category : Error → ExitCategory
  | invalidOrder _ | duplicateOrder _ | argumentGap _ _ _ | missingLabelName _ => .malformedProgram
  | labelRedefinition _ | unknownLabel _ => .semantic

def empty : Program := {}

def declareLabel (p : Program) (i : Instruction) : Except Error Unit × Program :=
  if i.opcode = .label then
    match i.declaredLabel? with
    | none => (.error (.missingLabelName i.order), p)
    | some name =>
      if p.labels.contains name then (.error (.labelRedefinition name), p)
      else (.ok (), { p with labels := p.labels.insert name i.order })
  else
    (.ok (), p)

/-- Tries to add one instruction, or tells why it cannot be part of the program. The program comes
back as it has become by then. -/
def attempt (p : Program) (i : Instruction) : Except Error Unit × Program :=
  if i.order ≤ 0 then (.error (.invalidOrder i.order), p)
  else if p.instructions.contains i.order then (.error (.duplicateOrder i.order), p)
  else
    match i.gap? with
    | some (position, missing) => (.error (.argumentGap i.order position missing), p)
    | none =>
      -- the label is entered before its instruction is
      match p.declareLabel i with
      | (.error e, q) => (.error e, q)
      | (.ok (), q) => (.ok (), { q with
          maxOrder := max q.maxOrder i.order
          instructions := q.instructions.insert i.order i })

/-- Adds one instruction; there is no program any more if that fails. -/
def add (p : Program) (i : Instruction) : Except Error Program :=
  match p.attempt i with
  | (.ok (), q) => .ok q
  | (.error e, _) => .error e

def addAll (p : Program) (is : List Instruction) : Except Error Program :=
  is.foldlM add p

def ofInstructions (is : List Instruction) : Except Error Program := empty.addAll is

def get? (p : Program) (order : Order) : Option Instruction := p.instructions.get? order

def after? (p : Program) (order : Order) : Option Instruction :=
  if p.maxOrder ≤ order then none else p.instructions.above? order

def resolve (p : Program) (name : String) : Except Error Order :=
  match p.labels.get? name with
  | some order => .ok order
  | none => .error (.unknownLabel name)

def toList (p : Program) : List Instruction := p.instructions.items

def walkFor (p : Program) : Nat → Order → List Instruction
  | 0, _ => []
  | n + 1, order =>
    match p.after? order with
    | none => []
    | some i => i :: p.walkFor n i.order

def walk (p : Program) (order : Order) : List Instruction := p.walkFor p.instructions.size order

end Program

end ThreeAddress
