import ThreeAddress.Text.Utf8
import ThreeAddress.Value

/-!
Operations on values. They know nothing of frames and stacks.
-/

namespace ThreeAddress.Operation

inductive Fault where
  | typeMismatch
  | divisionByZero
  | floatOutOfRange
  | indexOutOfRange (index : Int64) (length : Nat)
  | invalidOrdinal (n : Int64)
  | emptyReplacement
  deriving DecidableEq, Repr

inductive Arith where
  | add
  | sub
  | mul
  | div
  | idiv
  deriving DecidableEq, Repr

inductive Relation where
  | lt
  | gt
  | eq
  deriving DecidableEq, Repr

inductive Logic where
  | and
  | or
  deriving DecidableEq, Repr

/-- Integers wrap around at 64 bits; their quotient is truncated, and `div` is not for them. -/
def intArith (op : Arith) (x y : Int64) : Except Fault Int64 :=
  match op with
  | .add => .ok (x + y)
  | .sub => .ok (x - y)
  | .mul => .ok (x * y)
  | .idiv => if y = 0 then .error .divisionByZero else .ok (x / y)
  | .div => .error .typeMismatch

/-- A float is not divided by either zero, and `idiv` is not for floats. -/
def floatArith (op : Arith) (x y : Binary64) : Except Fault Binary64 :=
  match op with
  | .add => .ok (x.add y)
  | .sub => .ok (x.sub y)
  | .mul => .ok (x.mul y)
  | .div => if y.isZero then .error .divisionByZero else .ok (x.div y)
  | .idiv => .error .typeMismatch

def arith (op : Arith) : Value → Value → Except Fault Value
  | .int x, .int y => (intArith op x y).map .int
  | .float x, .float y => (floatArith op x y).map .float
  | _, _ => .error .typeMismatch

def Relation.ordering : Relation → Ordering
  | .lt => .lt
  | .gt => .gt
  | .eq => .eq

/-- How two values of one type stand to each other. Texts are ordered by their bytes. -/
def relate : Value → Value → Except Fault (Option Ordering)
  | .int x, .int y => .ok (some (Ord.compare x y))
  | .bool x, .bool y => .ok (some (Ord.compare x y))
  | .string x, .string y => .ok (some (Ord.compare (Text.encodeUtf8 x) (Text.encodeUtf8 y)))
  | .float x, .float y => .ok (x.ordering? y)
  | _, _ => .error .typeMismatch

/-- Values of one type are compared; with nil there is only the question of equality. -/
def compare (r : Relation) (a b : Value) : Except Fault Bool :=
  if a.isNil ∨ b.isNil then
    if r = .eq then .ok (a.isNil && b.isNil) else .error .typeMismatch
  else
    (relate a b).map fun ordering => decide (ordering = some r.ordering)

def equals (a b : Value) : Except Fault Bool := compare .eq a b

def logic (op : Logic) : Value → Value → Except Fault Value
  | .bool x, .bool y => .ok (.bool (match op with
    | .and => x && y
    | .or => x || y))
  | _, _ => .error .typeMismatch

def not : Value → Except Fault Value
  | .bool x => .ok (.bool (!x))
  | _ => .error .typeMismatch

/-- The place in a text that an index means, counted in characters from zero. -/
def position (cs : List Char) (index : Int64) : Except Fault Nat :=
  if 0 ≤ index.toInt ∧ index.toInt < cs.length then .ok index.toInt.toNat
  else .error (.indexOutOfRange index cs.length)

def charAt (s : String) (index : Int64) : Except Fault Char :=
  match if 0 ≤ index then s.toList[index.toInt.toNat]? else none with
  | some c => .ok c
  | none => .error (.indexOutOfRange index s.toList.length)

def intToChar : Value → Except Fault Value
  | .int n =>
    match if 0 ≤ n then Text.scalar? n.toInt.toNat else none with
    | some c => .ok (.string (String.singleton c))
    | none => .error (.invalidOrdinal n)
  | _ => .error .typeMismatch

def ordinalAt : Value → Value → Except Fault Value
  | .string s, .int index => (charAt s index).map fun c => .int (Int64.ofNat c.toNat)
  | _, _ => .error .typeMismatch

def intToFloat : Value → Except Fault Value
  | .int n => .ok (.float (.ofInt64 n))
  | _ => .error .typeMismatch

def floatToInt : Value → Except Fault Value
  | .float x =>
    match x.toInt64? with
    | some n => .ok (.int n)
    | none => .error .floatOutOfRange
  | _ => .error .typeMismatch

def concat : Value → Value → Except Fault Value
  | .string s, .string t => .ok (.string (s ++ t))
  | _, _ => .error .typeMismatch

def length : Value → Except Fault Value
  | .string s => .ok (.int (Int64.ofNat s.toList.length))
  | _ => .error .typeMismatch

def getChar : Value → Value → Except Fault Value
  | .string s, .int index => (charAt s index).map fun c => .string (String.singleton c)
  | _, _ => .error .typeMismatch

/-- Only the first character of the replacement is used, so there has to be one. -/
def setChar : Value → Value → Value → Except Fault Value
  | .string target, .int index, .string replacement =>
    match replacement.toList with
    | [] => .error .emptyReplacement
    | c :: _ => (position target.toList index).map fun i =>
        .string (String.ofList (target.toList.set i c))
  | _, _, _ => .error .typeMismatch

def typeName (v : Option Value) : Value := .string ((v.map (·.tag.name)).getD "")

inductive Binary where
  | arith (op : Arith)
  | relation (r : Relation)
  | logic (op : Logic)
  | ordinalAt
  | concat
  | getChar
  deriving DecidableEq, Repr

def Binary.apply : Binary → Value → Value → Except Fault Value
  | arith op, a, b => Operation.arith op a b
  | relation r, a, b => (compare r a b).map .bool
  | logic op, a, b => Operation.logic op a b
  | ordinalAt, a, b => Operation.ordinalAt a b
  | concat, a, b => Operation.concat a b
  | getChar, a, b => Operation.getChar a b

inductive Unary where
  | not
  | intToChar
  | intToFloat
  | floatToInt
  | length
  deriving DecidableEq, Repr

def Unary.apply : Unary → Value → Except Fault Value
  | not, a => Operation.not a
  | intToChar, a => Operation.intToChar a
  | intToFloat, a => Operation.intToFloat a
  | floatToInt, a => Operation.floatToInt a
  | length, a => Operation.length a

end ThreeAddress.Operation
