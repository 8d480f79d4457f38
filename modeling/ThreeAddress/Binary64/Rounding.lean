import ThreeAddress.Binary64.Basic

/-!
Rounding of a number `m * 2 ^ e` to the nearest binary64 number, a tie going to the even
neighbour. It is computed on natural numbers, from all places of the number or from the first ones.
-/

namespace ThreeAddress.Binary64

/-- The nearest integer to `n / 2 ^ k`, a half going to the even neighbour. -/
def divideToEven (n k : Nat) : Nat :=
  let quotient := n >>> k
  let remainder := n % (1 <<< k)
  if 2 * remainder < 1 <<< k ∨ (2 * remainder = 1 <<< k ∧ quotient % 2 = 0) then quotient
  else quotient + 1

/-- The exponent of the last place that a binary64 number near `m * 2 ^ e` can hold: 53 places
are kept from the first one on, and none below `2 ^ (-1074)`. -/
def lastPlace (m : Nat) (e : Int) : Int := max (e + m.log2 - 52) (-1074)

def roundedUnits (m : Nat) (e : Int) : Nat :=
  let place := lastPlace m e
  if place ≤ e then m <<< (e - place).toNat else divideToEven m (place - e).toNat

/-- The magnitude nearest to `m * 2 ^ e`. Magnitudes are consecutive across powers of two, so a
carry out of the 53 places needs no care. The result is not below `infinity` if and only if the
number is too large. -/
def roundedMagnitude (m : Nat) (e : Int) : Nat :=
  if m = 0 then 0 else ((lastPlace m e + 1074).toNat <<< 52) + roundedUnits m e

def ofInt64 (n : Int64) : Binary64 :=
  ofMagnitude (n < 0) (roundedMagnitude n.toInt.natAbs 0)

/-! Rounding of a number of which only the first places are known. -/

/-- Drops the last `k` of at most 64 places, to the nearest, a half going to the even neighbour. If
`sticky` holds, the number is really a little larger than `n`. -/
def roundShift (n k : Nat) (sticky : Bool) : Nat :=
  if 64 < k then 0
  else
    let kept := n >>> k
    let rest := n % (1 <<< k)
    let half := 1 <<< (k - 1)
    if half < rest ∨ (rest = half ∧ (sticky ∨ kept % 2 = 1)) then kept + 1 else kept

/-- The number nearest to `mantissa * 2 ^ scale`, or to a number a little larger if `sticky` holds,
unless it is too large. The mantissa is not zero and has at most 64 places. -/
def compose? (mantissa : Nat) (scale : Int) (sticky : Bool) : Option Binary64 :=
  let width : Int := mantissa.log2 + 1
  let top := scale + width - 1
  if 1023 < top then none
  else
    let precision := if -1022 ≤ top then 53 else 53 - (-1022 - top)
    let shift := width - precision
    let kept :=
      if shift ≤ 0 then mantissa <<< (-shift).toNat
      else roundShift mantissa shift.toNat sticky
    -- below the normal range a carry leads to the least normal number
    if top < -1022 then some (ofMagnitude false kept)
    else
      let (kept, top) := if kept = 1 <<< 53 then (kept >>> 1, top + 1) else (kept, top)
      if 1023 < top then none
      else some (ofMagnitude false (((top + 1023).toNat <<< 52) + kept % (1 <<< 52)))

end ThreeAddress.Binary64
