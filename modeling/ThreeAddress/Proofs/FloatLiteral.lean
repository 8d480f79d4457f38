import Mathlib.Algebra.Order.Field.Rat
import Mathlib.Tactic.FieldSimp
import Mathlib.Tactic.Positivity
import ThreeAddress.Proofs.FloatText

/-! Written numbers. A literal has an optional sign, an optional `0x`, digits with an optional point
among or around them, and an optional power; letters stand in either case. Reading its text is
rounding the number that it denotes. -/

namespace ThreeAddress

namespace Text

inductive Sign where
  | absent
  | plus
  | minus
  deriving DecidableEq, Repr

namespace Sign

def text : Sign → List Char
  | absent => []
  | plus => ['+']
  | minus => ['-']

def negative (s : Sign) : Bool := s = minus

theorem mem_text {s : Sign} {c : Char} (h : c ∈ s.text) : c = '+' ∨ c = '-' := by
  cases s with
  | absent => simp [text] at h
  | plus => exact .inl (List.mem_singleton.mp h)
  | minus => exact .inr (List.mem_singleton.mp h)

theorem splitSign_text (s : Sign) {cs : List Char}
    (h : ∀ c, cs.head? = some c → c ≠ '-' ∧ c ≠ '+') :
    splitSign (s.text ++ cs) = (s.negative, cs) := by
  cases s with
  | plus => rfl
  | minus => rfl
  | absent =>
    change splitSign cs = (false, cs)
    unfold splitSign
    split
    · exact absurd rfl (h '-' rfl).1
    · exact absurd rfl (h '+' rfl).2
    · rfl

end Sign

theorem toLower_invariant (c : Char) : isBlank c.toLower = isBlank c ∧
    isHexDigit c.toLower = isHexDigit c ∧ digitValue c.toLower = digitValue c := by
  by_cases hascii : c.toNat < 128
  · have hall : ∀ n < 128, isBlank (Char.ofNat n).toLower = isBlank (Char.ofNat n) ∧
        isHexDigit (Char.ofNat n).toLower = isHexDigit (Char.ofNat n) ∧
        digitValue (Char.ofNat n).toLower = digitValue (Char.ofNat n) := by decide
    have h := hall c.toNat hascii
    rwa [Char.ofNat_toNat] at h
  · rw [toLower_of_not_capital (by omega)]
    exact ⟨rfl, rfl, rfl⟩

theorem numeral_append (base : Nat) (cs ds : List Char) :
    numeral base (cs ++ ds) = numeral base cs * base ^ ds.length + numeral base ds := by
  rw [numeral, List.foldl_append, foldl_numeral]
  rfl

theorem numeral_map_toLower (base : Nat) (cs : List Char) :
    numeral base (cs.map Char.toLower) = numeral base cs := by
  simp only [numeral, List.foldl_map, (toLower_invariant _).2.2]

theorem all_isHexDigit_map_toLower (cs : List Char) :
    (cs.map Char.toLower).all isHexDigit = cs.all isHexDigit := by
  simp only [List.all_map, Function.comp_def, (toLower_invariant _).2.1]

end Text

namespace Binary64

open Text

def signed (negative : Bool) (q : ℚ) : ℚ := if negative then -q else q

structure Power where
  mark : Char
  sign : Sign
  digits : List Char
  mark_eq : mark = 'p' ∨ mark = 'P'
  digits_ne : digits ≠ []
  decimal : digits.all isDecimalDigit = true

structure Literal where
  sign : Sign
  marker : List Char
  whole : List Char
  /-- The digits after the point, if there is one. -/
  part : Option (List Char)
  power : Option Power
  marker_eq : marker = [] ∨ marker = ['0', 'x'] ∨ marker = ['0', 'X']
  digits_ne : whole ++ part.getD [] ≠ []
  hexadecimal : (whole ++ part.getD []).all isHexDigit = true

namespace Power

def text (p : Power) : List Char := p.mark :: (p.sign.text ++ p.digits)

def exponent (p : Power) : ℤ := Text.negateIf p.sign.negative (numeral 10 p.digits)

theorem isDecimalDigit_of_mem {p : Power} {c : Char} (h : c ∈ p.digits) :
    isDecimalDigit c = true :=
  List.all_eq_true.mp p.decimal c h

theorem map_toLower_text (p : Power) :
    p.text.map Char.toLower = 'p' :: (p.sign.text ++ p.digits) := by
  have hmark : p.mark.toLower = 'p' := by
    rcases p.mark_eq with h | h <;> rw [h] <;> rfl
  have hsame : ∀ c ∈ p.sign.text ++ p.digits, c.toLower = c := by
    intro c hc
    rcases List.mem_append.mp hc with hc | hc
    · rcases Sign.mem_text hc with rfl | rfl <;> rfl
    · exact (plain_of_isDecimalDigit (isDecimalDigit_of_mem hc)).2
  rw [text, List.map_cons, hmark, List.map_congr_left hsame, List.map_id']

theorem splitSign_text (p : Power) :
    splitSign (p.sign.text ++ p.digits) = (p.sign.negative, p.digits) := by
  apply Sign.splitSign_text
  intro c hc
  have hdigit := isDecimalDigit_of_mem (List.mem_of_head? hc)
  constructor <;> rintro rfl <;> exact absurd hdigit (by decide)

theorem exponent?_text {p : Power} (h : |p.exponent| ≤ 100000) :
    exponent? (p.sign.text ++ p.digits) = some p.exponent := by
  have hle : numeral 10 p.digits ≤ exponentLimit := by
    have habs : |p.exponent| = numeral 10 p.digits := by
      rw [exponent, Text.negateIf]
      split <;> simp
    rw [habs] at h
    exact_mod_cast h
  exact exponent?_of_splitSign p.splitSign_text p.digits_ne p.decimal hle

end Power

namespace Literal

def digits (l : Literal) : List Char := l.whole ++ l.part.getD []

def digitsText (l : Literal) : List Char := l.whole ++ l.part.elim [] ('.' :: ·)

def body (l : Literal) : List Char := l.digitsText ++ l.power.elim [] Power.text

def text (l : Literal) : List Char := l.sign.text ++ (l.marker ++ l.body)

def exponent (l : Literal) : ℤ := l.power.elim 0 Power.exponent

def value (l : Literal) : ℚ :=
  signed l.sign.negative
    ((numeral 16 l.whole + numeral 16 (l.part.getD []) / 16 ^ (l.part.getD []).length) *
      2 ^ l.exponent)

theorem mem_digitsText {l : Literal} {c : Char} (h : c ∈ l.digitsText) :
    isHexDigit c = true ∨ c = '.' := by
  have hhex : ∀ c ∈ l.whole ++ l.part.getD [], isHexDigit c = true :=
    List.all_eq_true.mp l.hexadecimal
  rw [digitsText, List.mem_append] at h
  rcases h with h | h
  · exact .inl (hhex c (List.mem_append_left _ h))
  · cases hpart : l.part with
    | none => simp [hpart] at h
    | some part =>
      rw [hpart, Option.elim_some, List.mem_cons] at h
      rcases h with h | h
      · exact .inr h
      · exact .inl (hhex c (List.mem_append_right _ (by rwa [hpart])))

theorem digitsText_ne_nil (l : Literal) : l.digitsText ≠ [] := by
  have hne := l.digits_ne
  rw [digitsText]
  cases hpart : l.part with
  | none => simpa [hpart] using hne
  | some part => simp

theorem mem_lower_digitsText {l : Literal} {c : Char} (h : c ∈ l.digitsText.map Char.toLower) :
    isHexDigit c = true ∨ c = '.' := by
  obtain ⟨d, hd, rfl⟩ := List.mem_map.mp h
  rcases mem_digitsText hd with hhex | rfl
  · left
    rwa [(toLower_invariant d).2.1]
  · exact .inr rfl

theorem mem_lower_body {l : Literal} {c : Char} (h : c ∈ l.body.map Char.toLower) :
    isHexDigit c = true ∨ c ∈ ['.', 'p', '+', '-'] := by
  rw [body, List.map_append, List.mem_append] at h
  rcases h with h | h
  · rcases mem_lower_digitsText h with hhex | rfl
    · exact .inl hhex
    · exact .inr (by simp)
  · cases hpower : l.power with
    | none => simp [hpower] at h
    | some p =>
      rw [hpower, Option.elim_some, p.map_toLower_text, List.mem_cons, List.mem_append] at h
      rcases h with rfl | h | h
      · exact .inr (by simp)
      · right
        rcases Sign.mem_text h with rfl | rfl <;> simp
      · exact .inl (isHexDigit_of_isDecimalDigit (Power.isDecimalDigit_of_mem h))

theorem mem_lower_marker {l : Literal} {c : Char} (h : c ∈ l.marker.map Char.toLower) :
    c = '0' ∨ c = 'x' := by
  rcases l.marker_eq with heq | heq | heq <;> rw [heq] at h
  · simp at h
  · simpa using h
  · simpa using h

theorem isBlank_of_mem_text {l : Literal} {c : Char} (h : c ∈ l.text) : isBlank c = false := by
  rw [← (toLower_invariant c).1]
  rw [text, List.mem_append, List.mem_append] at h
  rcases h with h | h | h
  · rcases Sign.mem_text h with rfl | rfl <;> rfl
  · rcases mem_lower_marker (List.mem_map_of_mem h) with heq | heq <;> rw [heq] <;> rfl
  · rcases mem_lower_body (List.mem_map_of_mem h) with hhex | hother
    · exact isBlank_of_isHexDigit hhex
    · simp only [List.mem_cons, List.not_mem_nil, or_false] at hother
      rcases hother with heq | heq | heq | heq <;> rw [heq] <;> rfl

theorem scaledDigits?_digitsText (l : Literal) :
    scaledDigits? (l.digitsText.map Char.toLower) =
      some (numeral 16 l.digits, -4 * ((l.part.getD []).length : ℤ)) := by
  have hpoint : '.' ∉ l.whole.map Char.toLower := by
    rw [List.mem_map]
    rintro ⟨c, hc, hlower⟩
    have hhex := List.all_eq_true.mp l.hexadecimal c (List.mem_append_left _ hc)
    rw [← (toLower_invariant c).2.1, hlower] at hhex
    exact absurd hhex (by decide)
  have hsplit : splitAtFirst '.' (l.digitsText.map Char.toLower) =
      (l.whole.map Char.toLower, l.part.map (List.map Char.toLower)) := by
    rw [digitsText, List.map_append]
    cases l.part with
    | none => simpa using splitAtFirst_of_not_mem hpoint
    | some part => exact splitAtFirst_of_mem hpoint
  have hdigits : l.whole.map Char.toLower ++ (l.part.map (List.map Char.toLower)).getD [] =
      l.digits.map Char.toLower := by
    rw [digits, List.map_append]
    cases l.part <;> rfl
  have hlength : ((l.part.map (List.map Char.toLower)).getD []).length =
      (l.part.getD []).length := by
    cases l.part <;> simp
  simp only [scaledDigits?, hsplit, hdigits, hlength, numeral_map_toLower,
    all_isHexDigit_map_toLower]
  rw [if_pos ⟨by simpa [digits] using l.digits_ne, l.hexadecimal⟩]

theorem dropMarker_of_not_mem {cs : List Char} (h : 'x' ∉ cs) : dropMarker cs = cs := by
  unfold dropMarker
  split
  · simp at h
  · rfl

theorem dropMarker_text (l : Literal) :
    dropMarker ((l.marker ++ l.body).map Char.toLower) = l.body.map Char.toLower := by
  rw [List.map_append]
  rcases l.marker_eq with h | h | h
  · rw [h, List.map_nil, List.nil_append]
    apply dropMarker_of_not_mem
    exact fun hx => absurd (mem_lower_body hx) (by decide)
  · rw [h]
    rfl
  · rw [h]
    rfl

theorem scaled?_text {l : Literal} (h : |l.exponent| ≤ 100000) :
    scaled? ((l.marker ++ l.body).map Char.toLower) =
      some (numeral 16 l.digits, -4 * ((l.part.getD []).length : ℤ) + l.exponent) := by
  have hmark : 'p' ∉ l.digitsText.map Char.toLower :=
    fun hp => absurd (mem_lower_digitsText hp) (by decide)
  simp only [scaled?, dropMarker_text]
  rw [body, List.map_append]
  rw [exponent] at h ⊢
  cases hpower : l.power with
  | none =>
    simp [splitAtFirst_of_not_mem hmark, scaledDigits?_digitsText]
  | some p =>
    rw [hpower] at h
    simp [Power.map_toLower_text, splitAtFirst_of_mem hmark, scaledDigits?_digitsText,
      Power.exponent?_text h]

theorem not_mem_lower_text (l : Literal) : 'n' ∉ (l.marker ++ l.body).map Char.toLower := by
  rw [List.map_append, List.mem_append]
  rintro (hn | hn)
  · exact absurd (mem_lower_marker hn) (by decide)
  · exact absurd (mem_lower_body hn) (by decide)

theorem unsigned?_text (l : Literal) :
    unsigned? ((l.marker ++ l.body).map Char.toLower) =
      finite? ((l.marker ++ l.body).map Char.toLower) := by
  have hword := l.not_mem_lower_text
  rw [unsigned?, if_neg, if_neg]
  · intro heq
    simp [heq] at hword
  · rintro (heq | heq) <;> simp [heq] at hword

theorem splitSign_text (l : Literal) :
    splitSign l.text = (l.sign.negative, l.marker ++ l.body) := by
  apply Sign.splitSign_text
  intro c hc
  rcases l.marker_eq with h | h | h
  · rw [h, List.nil_append, body, List.head?_append_of_ne_nil _ l.digitsText_ne_nil] at hc
    have hdigit := mem_digitsText (List.mem_of_head? hc)
    constructor <;> rintro rfl <;> exact absurd hdigit (by decide)
  · rw [h] at hc
    obtain rfl : '0' = c := by simpa using hc
    decide
  · rw [h] at hc
    obtain rfl : '0' = c := by simpa using hc
    decide

/-- Reading a literal is rounding the number that its digits make up. -/
theorem parse?_text {l : Literal} (h : |l.exponent| ≤ 100000) :
    parse? l.text =
      (round? false (numeral 16 l.digits) (-4 * ((l.part.getD []).length : ℤ) + l.exponent)).map
        (negateIf l.sign.negative) := by
  simp only [parse?, trim_of_not_blank fun _ => isBlank_of_mem_text, splitSign_text,
    unsigned?_text, finite?_eq, scaled?_text h, Option.bind_some]

theorem value_eq (l : Literal) :
    l.value = signed l.sign.negative
      (numeral 16 l.digits * 2 ^ (-4 * ((l.part.getD []).length : ℤ) + l.exponent)) := by
  have hpow : (2 : ℚ) ^ (-4 * ((l.part.getD []).length : ℤ)) =
      (16 ^ (l.part.getD []).length)⁻¹ := by
    rw [neg_mul, zpow_neg, zpow_mul, zpow_natCast]
    norm_num
  have hne : (16 : ℚ) ^ (l.part.getD []).length ≠ 0 := by positivity
  rw [value, digits, numeral_append, zpow_add₀ two_ne_zero, hpow]
  congr 1
  push_cast
  field_simp

end Literal

end Binary64

end ThreeAddress
