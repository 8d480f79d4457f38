/-!
Numerals in base ten and sixteen, signed 64-bit integers among them, and Unicode scalar values.
-/

namespace ThreeAddress.Text

/-- The value of a digit, in either case; zero for a character that is none. -/
def digitValue (c : Char) : Nat :=
  if '0' ≤ c ∧ c ≤ '9' then c.toNat - 48
  else if 'a' ≤ c ∧ c ≤ 'f' then c.toNat - 87
  else if 'A' ≤ c ∧ c ≤ 'F' then c.toNat - 55
  else 0

def isDecimalDigit (c : Char) : Bool := '0' ≤ c && c ≤ '9'

def isHexDigit (c : Char) : Bool :=
  isDecimalDigit c || ('a' ≤ c && c ≤ 'f') || ('A' ≤ c && c ≤ 'F')

def numeral (base : Nat) (cs : List Char) : Nat :=
  cs.foldl (fun n c => n * base + digitValue c) 0

def decimal? (cs : List Char) : Option Nat :=
  if cs ≠ [] ∧ cs.all isDecimalDigit then some (numeral 10 cs) else none

def hexadecimal? (cs : List Char) : Option Nat :=
  if cs ≠ [] ∧ cs.all isHexDigit then some (numeral 16 cs) else none

/-- Whether a minus sign stands first, and what follows an optional sign of either kind. -/
def splitSign : List Char → Bool × List Char
  | '-' :: cs => (true, cs)
  | '+' :: cs => (false, cs)
  | cs => (false, cs)

def negateIf (negative : Bool) (n : Int) : Int := if negative then -n else n

def integer? (cs : List Char) : Option Int :=
  (decimal? (splitSign cs).2).map fun n => negateIf (splitSign cs).1 n

/-- An integer in the signed 64-bit range; one outside it is refused, not wrapped. -/
def int64? (cs : List Char) : Option Int64 :=
  (integer? cs).bind fun n =>
    if Int64.minValue.toInt ≤ n ∧ n ≤ Int64.maxValue.toInt then some (Int64.ofInt n) else none

/-- The character with code point `n`, unless `n` is a surrogate or above U+10FFFF. -/
def scalar? (n : Nat) : Option Char :=
  if n < 0xd800 ∨ (0xdfff < n ∧ n < 0x110000) then some (Char.ofNat n) else none

end ThreeAddress.Text
