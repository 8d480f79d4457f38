import ThreeAddress.Proofs.DigitReading

/-! The hexadecimal notation reads back to the same bits. The text of a finite number is an exact
multiple of a power of two, so that its reading has nothing to round; the sign is put back on the
magnitude at the end. -/

namespace ThreeAddress

namespace Binary64

open Text

/-! Bits, sign and magnitude. -/

theorem magnitude_eq_mod (x : Binary64) : x.magnitude = x.bits.toNat % 2 ^ 63 := by
  rw [magnitude, Nat.one_shiftLeft]

theorem magnitude_lt (x : Binary64) : x.magnitude < 2 ^ 63 := by
  rw [magnitude_eq_mod]
  omega

theorem ofMagnitude_self (x : Binary64) : ofMagnitude x.negative x.magnitude = x := by
  cases x with
  | mk bits =>
    have hb := bits.toNat_lt
    have hsum : bits.toNat % 2 ^ 63 + (if 2 ^ 63 ≤ bits.toNat then 2 ^ 63 else 0) =
        bits.toNat := by
      split <;> omega
    simp only [ofMagnitude, negative, magnitude_eq_mod, Nat.one_shiftLeft, decide_eq_true_eq, hsum,
      UInt64.ofNat_toNat]

theorem toNat_bits_ofMagnitude {negative : Bool} {m : Nat} (h : m < 2 ^ 63) :
    (ofMagnitude negative m).bits.toNat = m + if negative then 2 ^ 63 else 0 := by
  rw [ofMagnitude, UInt64.toNat_ofNat']
  split <;> omega

theorem magnitude_ofMagnitude {negative : Bool} {m : Nat} (h : m < 2 ^ 63) :
    (ofMagnitude negative m).magnitude = m := by
  rw [magnitude_eq_mod, toNat_bits_ofMagnitude h]
  split <;> omega

theorem negative_ofMagnitude {negative : Bool} {m : Nat} (h : m < 2 ^ 63) :
    (ofMagnitude negative m).negative = negative := by
  rw [Binary64.negative, toNat_bits_ofMagnitude h]
  cases negative with
  | false => simpa using h
  | true => simp

theorem negateIf_ofMagnitude {flip : Bool} {m : Nat} (h : m < 2 ^ 63) :
    negateIf flip (ofMagnitude false m) = ofMagnitude flip m := by
  cases flip with
  | false => rfl
  | true => rw [negateIf, if_pos rfl, negative_ofMagnitude h, magnitude_ofMagnitude h]; rfl

/-! Numbers that need no rounding. -/

theorem exponentField_eq_div (x : Binary64) : x.exponentField = x.magnitude / 2 ^ 52 :=
  Nat.shiftRight_eq_div_pow _ _

theorem fraction_eq_mod (x : Binary64) : x.fraction = x.magnitude % 2 ^ 52 := by
  rw [fraction, Nat.one_shiftLeft]

theorem fraction_lt (x : Binary64) : x.fraction < 2 ^ 52 := by
  rw [fraction_eq_mod]
  omega

theorem magnitude_eq (x : Binary64) : x.magnitude = x.exponentField * 2 ^ 52 + x.fraction := by
  rw [exponentField_eq_div, fraction_eq_mod]
  omega

theorem significand_of_subnormal {x : Binary64} (h : x.exponentField = 0) :
    x.significand = x.magnitude ∧ x.unit = -1074 := by
  refine ⟨?_, by rw [unit, if_pos h]⟩
  rw [significand, if_pos h, magnitude_eq, h]
  omega

theorem significand_of_normal {x : Binary64} (h : x.exponentField ≠ 0) :
    x.significand = 2 ^ 52 + x.fraction ∧ x.unit = x.exponentField - 1075 := by
  exact ⟨by rw [significand, if_neg h, Nat.one_shiftLeft], by rw [unit, if_neg h]⟩

theorem log2_add_of_mul {m n j : Nat} (hm : m ≠ 0) (h : m * 2 ^ j = n) : m.log2 + j = n.log2 := by
  have hn : n ≠ 0 := by
    rintro rfl
    rcases Nat.mul_eq_zero.mp h with h | h
    · exact hm h
    · exact Nat.ne_of_gt (Nat.two_pow_pos j) h
  symm
  rw [Nat.log2_eq_iff hn, ← h, Nat.pow_add, Nat.add_right_comm, Nat.pow_add 2 (m.log2 + 1)]
  exact ⟨Nat.mul_le_mul_right _ (Nat.log2_self_le hm),
    Nat.mul_lt_mul_of_pos_right Nat.lt_log2_self (Nat.two_pow_pos j)⟩

/-- The last place of a number is its unit, however many zeros at its end are left out. -/
theorem lastPlace_of_scaled {x : Binary64} {m j : Nat} (hm : m ≠ 0)
    (h : m * 2 ^ j = x.significand) : lastPlace m (x.unit + j) = x.unit := by
  have hlog := log2_add_of_mul hm h
  have hx := x.fraction_lt
  have hs : x.significand ≠ 0 := by
    rw [← h]
    exact Nat.mul_ne_zero hm (Nat.ne_of_gt (Nat.two_pow_pos j))
  rw [lastPlace]
  by_cases hz : x.exponentField = 0
  · obtain ⟨hsig, hu⟩ := significand_of_subnormal hz
    have hlt : x.significand.log2 < 52 := by
      rw [Nat.log2_lt hs, hsig, magnitude_eq, hz]
      omega
    omega
  · obtain ⟨hsig, hu⟩ := significand_of_normal hz
    have heq : x.significand.log2 = 52 := by
      rw [Nat.log2_eq_iff hs, hsig]
      omega
    omega

theorem roundedMagnitude_of_scaled {x : Binary64} {m j : Nat} (h : m * 2 ^ j = x.significand) :
    roundedMagnitude m (x.unit + j) = x.magnitude := by
  by_cases hm : m = 0
  · subst m
    rw [Nat.zero_mul] at h
    rw [roundedMagnitude, if_pos rfl]
    by_cases hz : x.exponentField = 0
    · exact h.trans (significand_of_subnormal hz).1
    · have := (significand_of_normal hz).1
      omega
  · have hunits : roundedUnits m (x.unit + j) = x.significand := by
      simp only [roundedUnits, lastPlace_of_scaled hm h]
      rw [if_pos (by omega), show (x.unit + j - x.unit).toNat = j by omega,
        Nat.shiftLeft_eq, h]
    rw [roundedMagnitude, if_neg hm, lastPlace_of_scaled hm h, hunits, Nat.shiftLeft_eq]
    by_cases hz : x.exponentField = 0
    · obtain ⟨hsig, hu⟩ := significand_of_subnormal hz
      rw [hsig, hu]
      simp
    · obtain ⟨hsig, hu⟩ := significand_of_normal hz
      rw [hsig, hu, magnitude_eq]
      omega

/-! Digits of the fraction. -/

theorem fractionDigits_succ (count n : Nat) :
    fractionDigits (count + 1) n =
      if n = 0 then [] else hexDigit (n / 16 ^ count) :: fractionDigits count (n % 16 ^ count) := by
  rw [fractionDigits, Nat.shiftRight_eq_div_pow, Nat.one_shiftLeft, Nat.pow_mul]

theorem length_fractionDigits (count n : Nat) : (fractionDigits count n).length ≤ count := by
  induction count generalizing n with
  | zero => simp [fractionDigits]
  | succ count ih =>
    rw [fractionDigits_succ]
    split
    · simp
    · have := ih (n % 16 ^ count)
      simp only [List.length_cons]
      omega

theorem mem_fractionDigits {count n : Nat} (h : n < 16 ^ count) {c : Char}
    (hc : c ∈ fractionDigits count n) : ∃ d, d < 16 ∧ c = d.digitChar := by
  induction count generalizing n with
  | zero => simp [fractionDigits] at hc
  | succ count ih =>
    rw [fractionDigits_succ] at hc
    split at hc
    · simp at hc
    · rcases List.mem_cons.mp hc with rfl | hc
      · refine ⟨n / 16 ^ count, ?_, rfl⟩
        rw [Nat.div_lt_iff_lt_mul (Nat.pow_pos (by decide)), Nat.mul_comm, ← Nat.pow_succ]
        exact h
      · exact ih (Nat.mod_lt _ (Nat.pow_pos (by decide))) hc

theorem numeral_fractionDigits {count n : Nat} (h : n < 16 ^ count) :
    numeral 16 (fractionDigits count n) * 16 ^ (count - (fractionDigits count n).length) = n := by
  induction count generalizing n with
  | zero =>
    have hn : n = 0 := by simpa using h
    simp [fractionDigits, numeral, hn]
  | succ count ih =>
    rw [fractionDigits_succ]
    split
    · rename_i hn
      simp [numeral, hn]
    · have hd : n / 16 ^ count < 16 := by
        rw [Nat.div_lt_iff_lt_mul (Nat.pow_pos (by decide)), Nat.mul_comm, ← Nat.pow_succ]
        exact h
      have hrest := ih (Nat.mod_lt n (Nat.pow_pos (by decide)))
      have hlen := length_fractionDigits count (n % 16 ^ count)
      have hpow : 16 ^ (fractionDigits count (n % 16 ^ count)).length *
          16 ^ (count - (fractionDigits count (n % 16 ^ count)).length) = 16 ^ count := by
        rw [← Nat.pow_add]
        congr 1
        omega
      rw [List.length_cons, Nat.add_sub_add_right, numeral_cons, hexDigit,
        digitValue_digitChar hd, Nat.add_mul, Nat.mul_assoc, hpow, hrest]
      exact Nat.div_add_mod' n (16 ^ count)

/-! Exponents. -/

theorem boundedDecimal_eq (cs : List Char) :
    boundedDecimal cs = min (numeral 10 cs) exponentLimit := by
  have general : ∀ start, cs.foldl (fun n c => min (n * 10 + digitValue c) exponentLimit)
      (min start exponentLimit) =
        min (cs.foldl (fun n c => n * 10 + digitValue c) start) exponentLimit := by
    induction cs with
    | nil => intro start; rfl
    | cons c cs ih =>
      intro start
      have hstep : min (min start exponentLimit * 10 + digitValue c) exponentLimit =
          min (start * 10 + digitValue c) exponentLimit := by
        simp only [exponentLimit]
        omega
      rw [List.foldl_cons, List.foldl_cons, hstep, ih]
  exact general 0

theorem exponent?_of_splitSign {cs digits : List Char} {negative : Bool}
    (hs : splitSign cs = (negative, digits)) (hne : digits ≠ [])
    (hd : digits.all isDecimalDigit = true) (hle : numeral 10 digits ≤ exponentLimit) :
    exponent? cs = some (Text.negateIf negative (numeral 10 digits)) := by
  simp only [exponent?, hs]
  rw [if_pos ⟨hne, hd⟩, boundedDecimal_eq, Nat.min_eq_left hle]

theorem exponent?_exponentText {n : Int} (h : n.natAbs ≤ exponentLimit) :
    exponent? (exponentText n).toList = some n := by
  have hd : (Nat.toDigits 10 n.natAbs).all isDecimalDigit = true :=
    List.all_eq_true.mpr fun _ => isDecimalDigit_of_mem_toDigits
  have hle : numeral 10 (Nat.toDigits 10 n.natAbs) ≤ exponentLimit := by rwa [numeral_toDigits]
  by_cases hn : n < 0
  · have hs : splitSign (exponentText n).toList = (true, Nat.toDigits 10 n.natAbs) := by
      simp [exponentText, hn, splitSign]
    rw [exponent?_of_splitSign hs Nat.toDigits_ne_nil hd hle, numeral_toDigits, Text.negateIf,
      if_pos rfl]
    exact congrArg some (by omega)
  · have hs : splitSign (exponentText n).toList = (false, Nat.toDigits 10 n.natAbs) := by
      simp [exponentText, hn, splitSign]
    rw [exponent?_of_splitSign hs Nat.toDigits_ne_nil hd hle, numeral_toDigits, Text.negateIf,
      if_neg Bool.false_ne_true]
    exact congrArg some (by omega)

/-! The text of a magnitude. -/

def leadDigit (x : Binary64) : Char := if x.exponentField = 0 then '0' else '1'

def fractionText (x : Binary64) : List Char :=
  if x.fraction = 0 then [] else '.' :: fractionDigits 13 x.fraction

theorem toList_magnitudeText {x : Binary64} (h : x.isInfinite = false) :
    x.magnitudeText.toList = '0' :: 'x' :: (x.leadDigit :: x.fractionText) ++
      'p' :: (exponentText x.writtenExponent).toList := by
  rw [magnitudeText, h, leadDigit, fractionText]
  by_cases he : x.exponentField = 0 <;> by_cases hf : x.fraction = 0 <;> simp [he, hf]

theorem mem_fractionText {x : Binary64} {c : Char} (h : c ∈ x.leadDigit :: x.fractionText) :
    c = '.' ∨ ∃ d, d < 16 ∧ c = d.digitChar := by
  have hx := x.fraction_lt
  rw [leadDigit, fractionText] at h
  rcases List.mem_cons.mp h with rfl | h
  · right
    split
    · exact ⟨0, by decide, rfl⟩
    · exact ⟨1, by decide, rfl⟩
  · split at h
    · simp at h
    · rcases List.mem_cons.mp h with rfl | h
      · exact Or.inl rfl
      · exact Or.inr (mem_fractionDigits hx h)

theorem digitValue_leadDigit (x : Binary64) :
    digitValue x.leadDigit = if x.exponentField = 0 then 0 else 1 := by
  rw [leadDigit]
  split <;> rfl

theorem isHexDigit_leadDigit (x : Binary64) : isHexDigit x.leadDigit = true := by
  rw [leadDigit]
  split <;> rfl

theorem scaledDigits?_fractionText (x : Binary64) :
    scaledDigits? (x.leadDigit :: x.fractionText) =
      some (numeral 16 (x.leadDigit :: fractionDigits 13 x.fraction),
        -4 * ((fractionDigits 13 x.fraction).length : Int)) := by
  have hx := x.fraction_lt
  have hlead : '.' ∉ [x.leadDigit] := by
    rw [leadDigit]
    split <;> decide
  have hall : ∀ c ∈ x.leadDigit :: fractionDigits 13 x.fraction, isHexDigit c = true := by
    intro c hc
    rcases List.mem_cons.mp hc with rfl | hc
    · exact x.isHexDigit_leadDigit
    · obtain ⟨d, hd, rfl⟩ := mem_fractionDigits hx hc
      exact isHexDigit_digitChar hd
  rw [fractionText]
  by_cases hf : x.fraction = 0
  · rw [if_pos hf, hf] at *
    simp only [scaledDigits?, splitAtFirst_of_not_mem hlead]
    simp [fractionDigits, x.isHexDigit_leadDigit]
  · rw [if_neg hf]
    have hsplit : splitAtFirst '.' (x.leadDigit :: '.' :: fractionDigits 13 x.fraction) =
        ([x.leadDigit], some (fractionDigits 13 x.fraction)) :=
      splitAtFirst_of_mem hlead
    simp only [scaledDigits?, hsplit, Option.getD_some, List.singleton_append]
    rw [if_pos ⟨by simp, List.all_eq_true.mpr hall⟩]

theorem numeral_mul_eq_significand (x : Binary64) :
    numeral 16 (x.leadDigit :: fractionDigits 13 x.fraction) *
      2 ^ (4 * (13 - (fractionDigits 13 x.fraction).length)) = x.significand := by
  have hlen := length_fractionDigits 13 x.fraction
  have hx : numeral 16 (fractionDigits 13 x.fraction) *
      16 ^ (13 - (fractionDigits 13 x.fraction).length) = x.fraction :=
    numeral_fractionDigits x.fraction_lt
  have hpow : 16 ^ (fractionDigits 13 x.fraction).length *
      16 ^ (13 - (fractionDigits 13 x.fraction).length) = 2 ^ 52 := by
    have hsum := Nat.pow_add 16 (fractionDigits 13 x.fraction).length
      (13 - (fractionDigits 13 x.fraction).length)
    rw [Nat.add_sub_cancel' hlen] at hsum
    exact hsum.symm
  rw [numeral_cons, digitValue_leadDigit, Nat.pow_mul, Nat.add_mul, Nat.mul_assoc]
  change _ * (_ * 16 ^ _) + _ * 16 ^ _ = _
  rw [hpow, hx, significand]
  split <;> omega

theorem writtenExponent_bound (x : Binary64) : x.writtenExponent.natAbs ≤ exponentLimit := by
  have hm := x.magnitude_lt
  have he : x.exponentField < 2048 := by
    rw [exponentField]
    omega
  rw [writtenExponent, unit, exponentLimit]
  split
  · decide
  · split <;> omega

theorem scaled?_magnitudeText {x : Binary64} (h : x.isInfinite = false) :
    scaled? x.magnitudeText.toList =
      some (numeral 16 (x.leadDigit :: fractionDigits 13 x.fraction),
        -4 * (fractionDigits 13 x.fraction).length + x.writtenExponent) := by
  have hp : 'p' ∉ x.leadDigit :: x.fractionText := by
    intro hc
    rcases mem_fractionText hc with hc | ⟨d, hd, hc⟩
    · exact absurd hc (by decide)
    · revert d
      decide
  rw [toList_magnitudeText h]
  simp only [scaled?, List.cons_append, dropMarker]
  rw [← List.cons_append, splitAtFirst_of_mem hp]
  simp [exponent?_exponentText x.writtenExponent_bound, scaledDigits?_fractionText]

/-- Reading the digits back gives the magnitude that they were written for. -/
theorem roundedMagnitude_of_digits (x : Binary64) :
    roundedMagnitude (numeral 16 (x.leadDigit :: fractionDigits 13 x.fraction))
      (-4 * (fractionDigits 13 x.fraction).length + x.writtenExponent) = x.magnitude := by
  have hsig := x.numeral_mul_eq_significand
  have hlen := length_fractionDigits 13 x.fraction
  by_cases hz : x.isZero = true
  · -- a zero is written with the exponent zero, which is not the one of its unit
    have hm : x.magnitude = 0 := by simpa [isZero] using hz
    have he : x.exponentField = 0 := by rw [exponentField_eq_div, hm, Nat.zero_div]
    rw [(significand_of_subnormal he).1, hm] at hsig
    rcases Nat.mul_eq_zero.mp hsig with hn | hn
    · rw [hn, hm, roundedMagnitude, if_pos rfl]
    · exact absurd hn (Nat.ne_of_gt (Nat.two_pow_pos _))
  · have hunit : -4 * ((fractionDigits 13 x.fraction).length : Int) + x.writtenExponent =
        x.unit + (4 * (13 - (fractionDigits 13 x.fraction).length) : Nat) := by
      rw [writtenExponent, if_neg hz]
      omega
    rw [hunit]
    exact roundedMagnitude_of_scaled hsig

theorem unsigned?_magnitudeText {x : Binary64} (h : x.isNaN = false) :
    unsigned? x.magnitudeText.toList = some (ofMagnitude false x.magnitude) := by
  have hle : x.magnitude ≤ infinity := by simpa [isNaN] using h
  by_cases hi : x.isInfinite = true
  · have hm : x.magnitude = infinity := by simpa [isInfinite] using hi
    rw [magnitudeText, if_pos hi, hm]
    rfl
  · have hi : x.isInfinite = false := by simpa using hi
    have hlt : x.magnitude < infinity := by
      have : x.magnitude ≠ infinity := by simpa [isInfinite] using hi
      omega
    have hword : ∀ c cs, c ≠ '0' → x.magnitudeText.toList ≠ c :: cs := by
      intro c cs hc
      rw [toList_magnitudeText hi]
      intro heq
      exact hc (List.cons.inj heq).1.symm
    rw [unsigned?, if_neg (by simp [hword]), if_neg (by simp [hword]), finite?_eq,
      scaled?_magnitudeText hi]
    simp only [Option.bind_some, round?, roundedMagnitude_of_digits, if_pos hlt]

/-! Whole texts: the sign, and blanks around. -/

/-- No character is lost by trimming or changed by folding of case. -/
def Plain (c : Char) : Prop := isBlank c = false ∧ c.toLower = c

theorem plain_digitChar {d : Nat} (h : d < 16) : Plain d.digitChar := by
  refine ⟨isBlank_of_isHexDigit (isHexDigit_digitChar h), ?_⟩
  revert d
  decide

theorem plain_of_isDecimalDigit {c : Char} (h : isDecimalDigit c = true) : Plain c := by
  refine ⟨isBlank_of_isHexDigit (isHexDigit_of_isDecimalDigit h), ?_⟩
  simp only [isDecimalDigit, Bool.and_eq_true, decide_eq_true_eq, Char.le_def,
    UInt32.le_iff_toNat_le] at h
  change 48 ≤ c.toNat ∧ c.toNat ≤ 57 at h
  exact toLower_of_not_capital fun hcapital => absurd (hcapital.1.trans h.2) (by decide)

theorem plain_of_mem_magnitudeText {x : Binary64} {c : Char} (h : c ∈ x.magnitudeText.toList) :
    Plain c := by
  by_cases hi : x.isInfinite = true
  · rw [magnitudeText, if_pos hi] at h
    have hc : c = 'i' ∨ c = 'n' ∨ c = 'f' := by simpa using h
    rcases hc with rfl | rfl | rfl <;> exact ⟨rfl, rfl⟩
  · rw [toList_magnitudeText (by simpa using hi), List.mem_append, List.mem_cons,
      List.mem_cons] at h
    rcases h with (rfl | rfl | h) | h
    · exact ⟨rfl, rfl⟩
    · exact ⟨rfl, rfl⟩
    · rcases mem_fractionText h with rfl | ⟨d, hd, rfl⟩
      · exact ⟨rfl, rfl⟩
      · exact plain_digitChar hd
    rcases List.mem_cons.mp h with rfl | h
    · exact ⟨rfl, rfl⟩
    · simp only [exponentText, String.toList_append, List.mem_append] at h
      rcases h with h | h
      · split at h
        · obtain rfl : c = '-' := by simpa using h
          exact ⟨rfl, rfl⟩
        · obtain rfl : c = '+' := by simpa using h
          exact ⟨rfl, rfl⟩
      · exact plain_of_isDecimalDigit (isDecimalDigit_of_mem_toDigits (by simpa using h))

theorem toList_render {x : Binary64} (h : x.isNaN = false) :
    x.render.toList = (if x.negative then ['-'] else []) ++ x.magnitudeText.toList := by
  rw [render, if_neg (by simp [h])]
  cases x.negative <;> simp

theorem splitSign_render {x : Binary64} (h : x.isNaN = false) :
    splitSign x.render.toList = (x.negative, x.magnitudeText.toList) := by
  rw [toList_render h]
  cases x.negative with
  | true => rfl
  | false =>
    by_cases hi : x.isInfinite = true
    · rw [magnitudeText, if_pos hi]
      rfl
    · rw [toList_magnitudeText (by simpa using hi)]
      rfl

theorem plain_of_mem_render {x : Binary64} (h : x.isNaN = false) {c : Char}
    (hc : c ∈ x.render.toList) : Plain c := by
  rw [toList_render h, List.mem_append] at hc
  rcases hc with hc | hc
  · split at hc
    · obtain rfl : c = '-' := by simpa using hc
      exact ⟨rfl, rfl⟩
    · simp at hc
  · exact plain_of_mem_magnitudeText hc

theorem parse?_between {x : Binary64} (h : x.isNaN = false) {left right : List Char}
    (hl : ∀ c ∈ left, isBlank c = true) (hr : ∀ c ∈ right, isBlank c = true) :
    parse? (left ++ x.render.toList ++ right) = some x := by
  have htrim : trim (left ++ x.render.toList ++ right) = x.render.toList :=
    trim_between hl hr (fun c hc => (plain_of_mem_render h (List.mem_of_head? hc)).1)
      fun c hc => (plain_of_mem_render h (List.mem_of_getLast? hc)).1
  have hlower : x.magnitudeText.toList.map Char.toLower = x.magnitudeText.toList :=
    (List.map_congr_left fun c hc => (plain_of_mem_magnitudeText hc).2).trans (List.map_id _)
  simp only [parse?, htrim, splitSign_render h, hlower, unsigned?_magnitudeText h,
    Option.map_some, negateIf_ofMagnitude x.magnitude_lt, ofMagnitude_self]

theorem parse?_render {x : Binary64} (h : x.isNaN = false) : parse? x.render.toList = some x := by
  simpa using @parse?_between x h [] [] (by simp) (by simp)

theorem parse?_nan {x : Binary64} (h : x.isNaN = true) {left right : List Char}
    (hl : ∀ c ∈ left, isBlank c = true) (hr : ∀ c ∈ right, isBlank c = true) :
    parse? (left ++ x.render.toList ++ right) = some nan := by
  have hx : x.render.toList = ['n', 'a', 'n'] := by simp [render, h]
  have htrim : trim (left ++ ['n', 'a', 'n'] ++ right) = ['n', 'a', 'n'] :=
    trim_between hl hr (by simp; decide) (by simp; decide)
  rw [hx, parse?, htrim]
  rfl

/-- Every number but a NaN is read back from its text bit for bit, and a NaN as a NaN, whatever
blanks stand around. So different numbers have different texts, and a number that was read is not
changed by writing it and reading it again. -/
theorem render_reads_back :
    (∀ (x : Binary64) (left right : List Char), (∀ c ∈ left, isBlank c = true) →
      (∀ c ∈ right, isBlank c = true) →
        (x.isNaN = false → parse? (left ++ x.render.toList ++ right) = some x) ∧
        (x.isNaN = true → ∃ y, parse? (left ++ x.render.toList ++ right) = some y ∧
          y.isNaN = true)) ∧
    (∀ x y : Binary64, x.isNaN = false → y.isNaN = false → x.render = y.render → x = y) ∧
    (∀ (cs : List Char) (x : Binary64), parse? cs = some x →
      ∃ y, parse? x.render.toList = some y ∧ y.render = x.render ∧
        (x.isNaN = false → y = x) ∧ (x.isNaN = true → y.isNaN = true)) := by
  refine ⟨?_, ?_, ?_⟩
  · intro x left right hl hr
    exact ⟨fun h => parse?_between h hl hr, fun h => ⟨nan, parse?_nan h hl hr, by decide⟩⟩
  · intro x y hx hy h
    have hp := parse?_render hx
    rw [h, parse?_render hy] at hp
    exact (Option.some.inj hp).symm
  · intro cs x _
    cases hx : x.isNaN with
    | false => exact ⟨x, parse?_render hx, rfl, fun _ => rfl, fun h => absurd h (by simp)⟩
    | true =>
      refine ⟨nan, ?_, ?_, fun h => absurd h (by simp), fun _ => by decide⟩
      · simpa using @parse?_nan x hx [] [] (by simp) (by simp)
      · rw [render, render, if_pos hx, if_pos (by decide)]

/-- The least number above zero, with blanks around. -/
theorem least_subnormal_reads_back :
    (⟨1⟩ : Binary64).isNaN = false ∧
      parse? ([' ', '\t'] ++ (⟨1⟩ : Binary64).render.toList ++ ['\n']) = some ⟨1⟩ :=
  ⟨by decide, (render_reads_back.1 ⟨1⟩ [' ', '\t'] ['\n'] (List.all_eq_true.mp rfl)
    (List.all_eq_true.mp rfl)).1 (by decide)⟩

end Binary64

end ThreeAddress
