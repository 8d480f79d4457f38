import ThreeAddress.Opcode
import ThreeAddress.Operation

/-!
What opcodes do. The instructions that compute come in two families, one with a destination and
symbols as operands and one on the data stack, and both share their operations.
-/

namespace ThreeAddress.Machine

inductive Action where
  | createFrame
  | pushFrame
  | popFrame
  | declare
  | call
  | returnBack
  | proceed
  | jump
  | jumpIf (equal : Bool)
  | exit
  | move
  | push
  | pop
  | clear
  | binary (op : Operation.Binary)
  | unary (op : Operation.Unary)
  | setChar
  | typeOf
  | stackBinary (op : Operation.Binary)
  | stackUnary (op : Operation.Unary)
  | stackJumpIf (equal : Bool)
  | read
  | write
  | print
  | report
  deriving DecidableEq, Repr

def Action.ofOpcode : Opcode → Action
  | .createFrame => createFrame
  | .pushFrame => pushFrame
  | .popFrame => popFrame
  | .defVar => declare
  | .call => call
  | .returnBack => returnBack
  | .label => proceed
  | .jump => jump
  | .jumpIfEq => jumpIf true
  | .jumpIfNeq => jumpIf false
  | .exit => exit
  | .move => move
  | .pushS => push
  | .popS => pop
  | .clearS => clear
  | .add => binary (.arith .add)
  | .sub => binary (.arith .sub)
  | .mul => binary (.arith .mul)
  | .div => binary (.arith .div)
  | .idiv => binary (.arith .idiv)
  | .lt => binary (.relation .lt)
  | .gt => binary (.relation .gt)
  | .eq => binary (.relation .eq)
  | .and => binary (.logic .and)
  | .or => binary (.logic .or)
  | .not => unary .not
  | .int2Char => unary .intToChar
  | .stri2Int => binary .ordinalAt
  | .int2Float => unary .intToFloat
  | .float2Int => unary .floatToInt
  | .concat => binary .concat
  | .strLen => unary .length
  | .getChar => binary .getChar
  | .setChar => setChar
  | .typeOf => typeOf
  | .addS => stackBinary (.arith .add)
  | .subS => stackBinary (.arith .sub)
  | .mulS => stackBinary (.arith .mul)
  | .divS => stackBinary (.arith .div)
  | .idivS => stackBinary (.arith .idiv)
  | .ltS => stackBinary (.relation .lt)
  | .gtS => stackBinary (.relation .gt)
  | .eqS => stackBinary (.relation .eq)
  | .andS => stackBinary (.logic .and)
  | .orS => stackBinary (.logic .or)
  | .notS => stackUnary .not
  | .int2CharS => stackUnary .intToChar
  | .stri2IntS => stackBinary .ordinalAt
  | .int2FloatS => stackUnary .intToFloat
  | .float2IntS => stackUnary .floatToInt
  | .jumpIfEqS => stackJumpIf true
  | .jumpIfNeqS => stackJumpIf false
  | .read => read
  | .write => write
  | .dPrint => print
  | .breakpoint => report

end ThreeAddress.Machine
