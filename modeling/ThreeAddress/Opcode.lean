import ThreeAddress.Text.Blank

/-!
The instruction set: mnemonics and numbers of operands.
-/

namespace ThreeAddress

inductive Opcode where
  | move
  | createFrame
  | pushFrame
  | popFrame
  | defVar
  | call
  | returnBack
  | pushS
  | popS
  | add
  | sub
  | mul
  | div
  | idiv
  | lt
  | gt
  | eq
  | and
  | or
  | not
  | int2Char
  | stri2Int
  | int2Float
  | float2Int
  | read
  | write
  | concat
  | strLen
  | getChar
  | setChar
  | typeOf
  | label
  | jump
  | jumpIfEq
  | jumpIfNeq
  | exit
  | dPrint
  | breakpoint
  | clearS
  | addS
  | subS
  | mulS
  | idivS
  | divS
  | ltS
  | gtS
  | eqS
  | andS
  | orS
  | notS
  | int2CharS
  | stri2IntS
  | int2FloatS
  | float2IntS
  | jumpIfEqS
  | jumpIfNeqS
  deriving DecidableEq, Repr

namespace Opcode

def all : List Opcode :=
  [move, createFrame, pushFrame, popFrame, defVar, call, returnBack, pushS, popS, add, sub, mul,
   div, idiv, lt, gt, eq, and, or, not, int2Char, stri2Int, int2Float, float2Int, read, write,
   concat, strLen, getChar, setChar, typeOf, label, jump, jumpIfEq, jumpIfNeq, exit, dPrint,
   breakpoint, clearS, addS, subS, mulS, idivS, divS, ltS, gtS, eqS, andS, orS, notS, int2CharS,
   stri2IntS, int2FloatS, float2IntS, jumpIfEqS, jumpIfNeqS]

def mnemonic : Opcode → String
  | move => "MOVE"
  | createFrame => "CREATEFRAME"
  | pushFrame => "PUSHFRAME"
  | popFrame => "POPFRAME"
  | defVar => "DEFVAR"
  | call => "CALL"
  | returnBack => "RETURN"
  | pushS => "PUSHS"
  | popS => "POPS"
  | add => "ADD"
  | sub => "SUB"
  | mul => "MUL"
  | div => "DIV"
  | idiv => "IDIV"
  | lt => "LT"
  | gt => "GT"
  | eq => "EQ"
  | and => "AND"
  | or => "OR"
  | not => "NOT"
  | int2Char => "INT2CHAR"
  | stri2Int => "STRI2INT"
  | int2Float => "INT2FLOAT"
  | float2Int => "FLOAT2INT"
  | read => "READ"
  | write => "WRITE"
  | concat => "CONCAT"
  | strLen => "STRLEN"
  | getChar => "GETCHAR"
  | setChar => "SETCHAR"
  | typeOf => "TYPE"
  | label => "LABEL"
  | jump => "JUMP"
  | jumpIfEq => "JUMPIFEQ"
  | jumpIfNeq => "JUMPIFNEQ"
  | exit => "EXIT"
  | dPrint => "DPRINT"
  | breakpoint => "BREAK"
  | clearS => "CLEARS"
  | addS => "ADDS"
  | subS => "SUBS"
  | mulS => "MULS"
  | idivS => "IDIVS"
  | divS => "DIVS"
  | ltS => "LTS"
  | gtS => "GTS"
  | eqS => "EQS"
  | andS => "ANDS"
  | orS => "ORS"
  | notS => "NOTS"
  | int2CharS => "INT2CHARS"
  | stri2IntS => "STRI2INTS"
  | int2FloatS => "INT2FLOATS"
  | float2IntS => "FLOAT2INTS"
  | jumpIfEqS => "JUMPIFEQS"
  | jumpIfNeqS => "JUMPIFNEQS"

def arity : Opcode → Nat
  | createFrame | pushFrame | popFrame | returnBack | breakpoint | clearS | addS | subS | mulS
  | idivS | divS | ltS | gtS | eqS | andS | orS | notS | int2CharS | stri2IntS | int2FloatS
  | float2IntS => 0
  | defVar | call | pushS | popS | write | label | jump | exit | dPrint | jumpIfEqS
  | jumpIfNeqS => 1
  | move | not | int2Char | int2Float | float2Int | read | strLen | typeOf => 2
  | add | sub | mul | div | idiv | lt | gt | eq | and | or | stri2Int | concat | getChar
  | setChar | jumpIfEq | jumpIfNeq => 3

/-- Blanks around a mnemonic and its case do not matter. -/
def ofMnemonic? (cs : List Char) : Option Opcode :=
  all.find? fun opcode => Text.sameFolded opcode.mnemonic.toList (Text.trim cs)

end Opcode

end ThreeAddress
