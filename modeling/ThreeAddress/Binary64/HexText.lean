import ThreeAddress.Binary64.Rounding
import ThreeAddress.Text.Blank
import ThreeAddress.Text.Numeral

/-!
The hexadecimal notation of floats. Writing is exact and gives the fewest digits; reading also
takes the looser forms: no `0x`, any number of digits, no exponent, any case.
-/

namespace ThreeAddress.Binary64

open Text

def hexDigit (n : Nat) : Char := Nat.digitChar n

/-- The digits of `n / 16 ^ count` after the point, up to the last one that is not zero. -/
def fractionDigits : Nat → Nat → List Char
  | 0, _ => []
  | count + 1, n =>
    if n = 0 then []
    else hexDigit (n >>> (4 * count)) :: fractionDigits count (n % (1 <<< (4 * count)))

/-- The exponent that is written: zero for zero, that of the unit place otherwise. -/
def writtenExponent (x : Binary64) : Int := if x.isZero then 0 else x.unit + 52

def exponentText (n : Int) : String :=
  (if n < 0 then "-" else "+") ++ toString n.natAbs

def magnitudeText (x : Binary64) : String :=
  if x.isInfinite then "inf"
  else
    (if x.exponentField = 0 then "0x0" else "0x1") ++
      (if x.fraction = 0 then "" else "." ++ String.ofList (fractionDigits 13 x.fraction)) ++
      "p" ++ exponentText x.writtenExponent

def render (x : Binary64) : String :=
  if x.isNaN then "nan" else (if x.negative then "-" else "") ++ x.magnitudeText

/-- The size of a written exponent stops growing here. -/
def exponentLimit : Nat := 100000

def boundedDecimal (cs : List Char) : Nat :=
  cs.foldl (fun n c => min (n * 10 + digitValue c) exponentLimit) 0

def exponent? (cs : List Char) : Option Int :=
  let (negative, digits) := splitSign cs
  if digits ≠ [] ∧ digits.all isDecimalDigit then
    some (Text.negateIf negative (boundedDecimal digits))
  else
    none

def keptDigits : Nat := 16

/-- The digits read so far make up `mantissa * 2 ^ scale`, and something more below the last place
of the mantissa if `sticky` holds. -/
structure Reading where
  mantissa : Nat := 0
  /-- The number of digits in the mantissa; zeros in front do not count. -/
  significant : Nat := 0
  scale : Int := 0
  sticky : Bool := false
  deriving DecidableEq, Repr

namespace Reading

def keep (r : Reading) (digit : Nat) : Reading :=
  if r.mantissa ≠ 0 ∨ digit ≠ 0 then
    { r with mantissa := (r.mantissa <<< 4) + digit, significant := r.significant + 1 }
  else
    r

/-- Leaves a digit out, of which no more is known than whether it is zero. -/
def skip (r : Reading) (digit : Nat) : Reading := { r with sticky := r.sticky || digit != 0 }

def wholeDigit (r : Reading) (digit : Nat) : Reading :=
  if r.significant < keptDigits then r.keep digit
  else { r.skip digit with scale := r.scale + 4 }

def partDigit (r : Reading) (digit : Nat) : Reading :=
  if r.significant < keptDigits then { r.keep digit with scale := r.scale - 4 }
  else r.skip digit

def ofDigits (whole part : List Char) : Reading :=
  (part.map digitValue).foldl partDigit ((whole.map digitValue).foldl wholeDigit {})

end Reading

def reading? (cs : List Char) : Option Reading :=
  let (whole, part) := splitAtFirst '.' cs
  let digits := whole ++ part.getD []
  if digits ≠ [] ∧ digits.all isHexDigit then some (.ofDigits whole (part.getD [])) else none

def dropMarker : List Char → List Char
  | '0' :: 'x' :: cs => cs
  | cs => cs

def finite? (cs : List Char) : Option Binary64 := do
  let (digits, power) := splitAtFirst 'p' (dropMarker cs)
  let exponent ← match power with
    | none => some 0
    | some power => exponent? power
  let r ← reading? digits
  if r.mantissa = 0 then some (ofMagnitude false 0)
  else compose? r.mantissa (r.scale + exponent) r.sticky

def unsigned? (cs : List Char) : Option Binary64 :=
  if cs = "inf".toList ∨ cs = "infinity".toList then some (ofMagnitude false infinity)
  else if cs = "nan".toList then some nan
  else finite? cs

/-- The number a text denotes, if it denotes one and this is not too large. -/
def parse? (cs : List Char) : Option Binary64 :=
  let (negative, rest) := splitSign (trim cs)
  (unsigned? (rest.map Char.toLower)).map (negateIf negative)

end ThreeAddress.Binary64
