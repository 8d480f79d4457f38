/-!
Floating-point numbers of the IEEE 754 format binary64, held as their 64 bits. The lower 63 bits
are the magnitude: magnitudes are ordered as the numbers they encode, `infinity` is the one of
the infinities, and those above it are the NaNs.
-/

namespace ThreeAddress

structure Binary64 where
  bits : UInt64
  deriving DecidableEq, Repr

namespace Binary64

def infinity : Nat := 2047 <<< 52

def negative (x : Binary64) : Bool := 1 <<< 63 ≤ x.bits.toNat

def magnitude (x : Binary64) : Nat := x.bits.toNat % (1 <<< 63)

def ofMagnitude (negative : Bool) (magnitude : Nat) : Binary64 :=
  ⟨UInt64.ofNat (magnitude + if negative then 1 <<< 63 else 0)⟩

def nan : Binary64 := ⟨0x7ff8000000000000⟩

def isNaN (x : Binary64) : Bool := infinity < x.magnitude

def isInfinite (x : Binary64) : Bool := x.magnitude == infinity

def isFinite (x : Binary64) : Bool := x.magnitude < infinity

def negateIf (flip : Bool) (x : Binary64) : Binary64 :=
  if flip then ofMagnitude (!x.negative) x.magnitude else x

def exponentField (x : Binary64) : Nat := x.magnitude >>> 52

def fraction (x : Binary64) : Nat := x.magnitude % (1 <<< 52)

/-- The integer `n` such that the finite magnitude is `n * 2 ^ unit`. -/
def significand (x : Binary64) : Nat :=
  if x.exponentField = 0 then x.fraction else (1 <<< 52) + x.fraction

def unit (x : Binary64) : Int :=
  if x.exponentField = 0 then -1074 else x.exponentField - 1075

/-- A number that orders all floats but the NaNs; the two zeros share it. -/
def rank (x : Binary64) : Int := if x.negative then -x.magnitude else x.magnitude

def isZero (x : Binary64) : Bool := x.magnitude == 0

/-- How two numbers stand to each other; a NaN stands to nothing. -/
def ordering? (x y : Binary64) : Option Ordering :=
  if x.isNaN || y.isNaN then none else some (compare x.rank y.rank)

def lift (op : Float → Float → Float) (x y : Binary64) : Binary64 :=
  ⟨(op (Float.ofBits x.bits) (Float.ofBits y.bits)).toBits⟩

def add : Binary64 → Binary64 → Binary64 := lift (· + ·)
def sub : Binary64 → Binary64 → Binary64 := lift (· - ·)
def mul : Binary64 → Binary64 → Binary64 := lift (· * ·)
def div : Binary64 → Binary64 → Binary64 := lift (· / ·)

/-- The integer part of a finite number: the fraction is dropped, toward zero. -/
def truncate (x : Binary64) : Int :=
  let n := if 0 ≤ x.unit then x.significand <<< x.unit.toNat
    else x.significand >>> (-x.unit).toNat
  if x.negative then -n else n

def toInt64? (x : Binary64) : Option Int64 :=
  if x.isFinite ∧ Int64.minValue.toInt ≤ x.truncate ∧ x.truncate ≤ Int64.maxValue.toInt then
    some (Int64.ofInt x.truncate)
  else
    none

end Binary64

end ThreeAddress
