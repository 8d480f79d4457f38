import ThreeAddress.Text.Numeral

/-!
Decimal escapes: a backslash and three decimal digits stand for the character with that code
point. What an escape stands for is not looked at again.
-/

namespace ThreeAddress.Text

/-- Why a text has no decoding, with the place of the offending backslash in characters. -/
inductive EscapeError where
  | truncated (position : Nat)
  | invalidDigits (position : Nat) (sequence : List Char)
  deriving DecidableEq, Repr

def EscapeError.message : EscapeError → String
  | .truncated position => s!"truncated escape sequence at character {position}"
  | .invalidDigits position sequence =>
    s!"invalid escape sequence '\\" ++ String.ofList sequence ++ s!"' at character {position}"

def decodeEscapesFrom (position : Nat) : List Char → Except EscapeError (List Char)
  | [] => .ok []
  | '\\' :: a :: b :: c :: rest =>
    if [a, b, c].all isDecimalDigit then
      (decodeEscapesFrom (position + 4) rest).map (Char.ofNat (numeral 10 [a, b, c]) :: ·)
    else
      .error (.invalidDigits position [a, b, c])
  | c :: rest =>
    if c = '\\' then .error (.truncated position)
    else (decodeEscapesFrom (position + 1) rest).map (c :: ·)

/-- A text without a backslash is its own decoding. -/
def decodeEscapes (text : String) : Except EscapeError String :=
  if '\\' ∈ text.toList then (decodeEscapesFrom 0 text.toList).map String.ofList else .ok text

theorem decodeEscapesFrom_cons {c : Char} (h : c ≠ '\\') (position : Nat) (cs : List Char) :
    decodeEscapesFrom position (c :: cs) =
      (decodeEscapesFrom (position + 1) cs).map (c :: ·) := by
  rw [decodeEscapesFrom, if_neg h]
  rintro a b d rest rfl
  exact absurd rfl h

theorem decodeEscapesFrom_of_not_mem {cs : List Char} (h : '\\' ∉ cs) (position : Nat) :
    decodeEscapesFrom position cs = .ok cs := by
  induction cs generalizing position with
  | nil => rfl
  | cons c cs ih =>
    rw [List.mem_cons, not_or] at h
    rw [decodeEscapesFrom_cons (Ne.symm h.1), ih h.2]
    rfl

/-- The texts that are passed on at once make no difference. -/
theorem decodeEscapes_eq (text : String) :
    decodeEscapes text = (decodeEscapesFrom 0 text.toList).map String.ofList := by
  by_cases h : '\\' ∈ text.toList
  · rw [decodeEscapes, if_pos h]
  · rw [decodeEscapes, if_neg h, decodeEscapesFrom_of_not_mem h]
    simp [Except.map]

end ThreeAddress.Text
