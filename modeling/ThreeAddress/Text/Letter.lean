import ThreeAddress.Text.AlphabeticRanges
import ThreeAddress.Text.NumericRanges

/-!
Letters and numbers of all scripts. Below U+0080 they are the ASCII ones; above, the two tables
decide.
-/

namespace ThreeAddress.Text

def inRanges (ranges : List (Nat × Nat)) (n : Nat) : Bool :=
  ranges.any fun (low, high) => low ≤ n && n ≤ high

def isAlphabetic (c : Char) : Bool :=
  if c.toNat < 0x80 then c.isAlpha else inRanges alphabeticRanges c.toNat

def isNumeric (c : Char) : Bool :=
  if c.toNat < 0x80 then c.isDigit else inRanges numericRanges c.toNat

def isAlphanumeric (c : Char) : Bool :=
  isAlphabetic c || isNumeric c

end ThreeAddress.Text
