import ThreeAddress.Binary64.HexText
import ThreeAddress.TypeTag

/-!
Run-time values. Equality of values is equality of their representation: floats are compared bit
for bit.
-/

namespace ThreeAddress

inductive Value where
  | nil
  | bool (b : Bool)
  | int (n : Int64)
  | float (x : Binary64)
  | string (s : String)
  deriving DecidableEq, Repr

namespace Value

def tag : Value → TypeTag
  | nil => .nil
  | bool _ => .bool
  | int _ => .int
  | float _ => .float
  | string _ => .string

def isNil (v : Value) : Bool := v.tag == .nil

def render : Value → String
  | nil => ""
  | bool b => if b then "true" else "false"
  | int n => toString n.toInt
  | float x => x.render
  | string s => s

def typed : Value → String
  | nil => "nil@nil"
  | v => v.tag.name ++ "@" ++ v.render

end Value

end ThreeAddress
