import ThreeAddress.Proofs.CorrectRounding

/-! What the limit on written exponents changes. The reader is compared with itself, reading
exponents without the limit: both round the same digits, with two exponents. The results agree as
long as both numbers are too large or too small, which holds unless a literal has tens of thousands
of digits. -/

namespace ThreeAddress

namespace Binary64

open Text

/-! The reader, with the reading of exponents left open. -/

def finiteWith? (power? : List Char → Option Int) (cs : List Char) : Option Binary64 := do
  let (digits, power) := splitAtFirst 'p' (dropMarker cs)
  let exponent ← match power with
    | none => some 0
    | some power => power? power
  let r ← reading? digits
  if r.mantissa = 0 then some (ofMagnitude false 0)
  else compose? r.mantissa (r.scale + exponent) r.sticky

def unsignedWith? (power? : List Char → Option Int) (cs : List Char) : Option Binary64 :=
  if cs = "inf".toList ∨ cs = "infinity".toList then some (ofMagnitude false infinity)
  else if cs = "nan".toList then some nan
  else finiteWith? power? cs

def parseWith? (power? : List Char → Option Int) (cs : List Char) : Option Binary64 :=
  let (negative, rest) := splitSign (trim cs)
  (unsignedWith? power? (rest.map Char.toLower)).map (negateIf negative)

theorem parse?_eq_parseWith? : parse? = parseWith? exponent? := rfl

def parseUnlimited? (cs : List Char) : Option Binary64 := parseWith? integer? cs

def saturate (e : ℤ) : ℤ := max (-100000) (min e 100000)

namespace Power

theorem exponent?_eq_saturate (p : Power) :
    exponent? (p.sign.text ++ p.digits) = some (saturate p.exponent) := by
  simp only [exponent?, p.splitSign_text]
  rw [if_pos ⟨p.digits_ne, p.decimal⟩, boundedDecimal_eq, exponent, Text.negateIf, Text.negateIf,
    saturate]
  simp only [exponentLimit, Nat.cast_min, Nat.cast_ofNat]
  split <;> exact congrArg some (by omega)

theorem integer?_eq_exponent (p : Power) :
    integer? (p.sign.text ++ p.digits) = some p.exponent := by
  have hdigits : decimal? p.digits = some (numeral 10 p.digits) := by
    rw [decimal?, if_pos ⟨p.digits_ne, p.decimal⟩]
  exact integer?_of_splitSign p.splitSign_text hdigits

end Power

namespace Literal

def exponentBy (l : Literal) (power? : List Char → Option Int) : Option Int :=
  l.power.elim (some 0) fun p => power? (p.sign.text ++ p.digits)

def sizeAt (l : Literal) (e : ℤ) : ℚ :=
  numeral 16 l.digits * 2 ^ (-4 * ((l.part.getD []).length : ℤ) + e)

theorem exponentBy_exponent? (l : Literal) :
    l.exponentBy exponent? = some (saturate l.exponent) := by
  rw [exponentBy, exponent]
  cases l.power with
  | none => rfl
  | some p => exact p.exponent?_eq_saturate

theorem exponentBy_integer? (l : Literal) : l.exponentBy integer? = some l.exponent := by
  rw [exponentBy, exponent]
  cases l.power with
  | none => rfl
  | some p => exact p.integer?_eq_exponent

theorem finiteWith?_text (l : Literal) {power? : List Char → Option Int} {e : ℤ}
    (h : l.exponentBy power? = some e) :
    finiteWith? power? ((l.marker ++ l.body).map Char.toLower) =
      round? false (numeral 16 l.digits) (-4 * ((l.part.getD []).length : ℤ) + e) := by
  have hmark : 'p' ∉ l.digitsText.map Char.toLower :=
    fun hp => absurd (mem_lower_digitsText hp) (by decide)
  have hround := reading?_bind (l.digitsText.map Char.toLower) e
  rw [l.scaledDigits?_digitsText, Option.bind_some] at hround
  rw [exponentBy] at h
  simp only [finiteWith?, dropMarker_text]
  rw [body, List.map_append]
  cases hpower : l.power with
  | none =>
    rw [hpower, Option.elim_none] at h
    obtain rfl := Option.some.inj h
    rw [Option.elim_none, List.map_nil, List.append_nil, splitAtFirst_of_not_mem hmark]
    exact hround
  | some p =>
    rw [hpower, Option.elim_some] at h
    rw [Option.elim_some, Power.map_toLower_text, splitAtFirst_of_mem hmark]
    simp only [h]
    exact hround

theorem parseWith?_text (l : Literal) {power? : List Char → Option Int} {e : ℤ}
    (h : l.exponentBy power? = some e) :
    parseWith? power? l.text = round? l.sign.negative (numeral 16 l.digits)
      (-4 * ((l.part.getD []).length : ℤ) + e) := by
  have hword := l.not_mem_lower_text
  have hunsigned : unsignedWith? power? ((l.marker ++ l.body).map Char.toLower) =
      finiteWith? power? ((l.marker ++ l.body).map Char.toLower) := by
    rw [unsignedWith?, if_neg, if_neg]
    · intro heq
      simp [heq] at hword
    · rintro (heq | heq) <;> simp [heq] at hword
  simp only [parseWith?, trim_of_not_blank fun _ => isBlank_of_mem_text, splitSign_text, hunsigned,
    l.finiteWith?_text h, map_negateIf_round?]

end Literal

/-! Two roundings of one numeral. -/

theorem half_unit : (2 : ℚ) ^ (-1075 : ℤ) = 2 ^ (-1074 : ℤ) / 2 := by
  rw [show (-1075 : ℤ) = -1074 - 1 by norm_num, zpow_sub_one₀ two_ne_zero]
  rfl

theorem placeOf_of_subnormal {v : ℚ} (h : |v| < 2 ^ (-1022 : ℤ)) : placeOf v = -1074 := by
  rw [placeOf, if_neg (not_le.mpr h)]

theorem roundedMagnitude_of_subnormal {n : ℕ} {e : ℤ} {units : ℕ}
    (hsmall : (n * 2 ^ e : ℚ) < 2 ^ (-1022 : ℤ))
    (hunits : IsNearest (n * 2 ^ e / 2 ^ (-1074 : ℤ)) units) : roundedMagnitude n e = units := by
  by_cases hn : n = 0
  · subst hn
    have hzero : IsNearest ((0 : ℕ) * 2 ^ e / 2 ^ (-1074 : ℤ)) (0 : ℕ) := .inl (by simp)
    have := hunits.unique hzero
    rw [roundedMagnitude, if_pos rfl]
    omega
  · have hplace : lastPlace n e = -1074 := by
      rw [← placeOf_scaled e hn]
      exact placeOf_of_subnormal (by rwa [abs_of_nonneg (by positivity)])
    have hnearest := isNearest_roundedUnits e n
    rw [hplace] at hnearest
    have := hnearest.unique hunits
    rw [roundedMagnitude_eq hn, hplace]
    omega

theorem abs_sub_rounded_le (v : ℚ) : |v - rounded v| ≤ 2 ^ placeOf v / 2 := by
  have hpos : (0 : ℚ) < 2 ^ placeOf v := zpow_pos two_pos _
  have hhalf := (isNearest_roundHalfEven (v / 2 ^ placeOf v)).le_half
  have hscale : |v - rounded v| =
      |v / 2 ^ placeOf v - roundHalfEven (v / 2 ^ placeOf v)| * 2 ^ placeOf v := by
    rw [rounded, ← abs_of_pos hpos, ← abs_mul, abs_of_pos hpos, sub_mul,
      div_mul_cancel₀ _ hpos.ne']
  calc |v - rounded v| ≤ 1 / 2 * 2 ^ placeOf v := by
        rw [hscale]
        exact mul_le_mul_of_nonneg_right hhalf hpos.le
    _ = 2 ^ placeOf v / 2 := by ring

theorem unit_mul_le {v w : ℚ} (hv : |v| ≤ w) (hw : 2 ^ (-1022 : ℤ) ≤ w) :
    2 ^ placeOf v * 2 ^ 52 ≤ w := by
  have hshift (k : ℤ) : (2 : ℚ) ^ (k - 52) * 2 ^ 52 = 2 ^ k := by
    rw [← zpow_natCast 2 52, ← zpow_add₀ two_ne_zero]
    congr 1
    push_cast
    ring
  rw [placeOf]
  split
  · rename_i hnormal
    have hpos : 0 < |v| := (zpow_pos two_pos _).trans_le hnormal
    rw [hshift]
    exact (Int.zpow_log_le_self (by decide) hpos).trans hv
  · have hlast := hshift (-1022)
    rw [show (-1022 - 52 : ℤ) = -1074 by norm_num] at hlast
    rwa [hlast]

theorem rounded_ne_of_double {v w : ℚ} (hv : 0 < v) (hdouble : 2 * v ≤ w)
    (hw : 2 ^ (-1022 : ℤ) ≤ w) : rounded v ≠ rounded w := by
  intro heq
  have hvunit := unit_mul_le (v := v) (by rw [abs_of_pos hv]; linarith) hw
  have hwunit := unit_mul_le (v := w) (by rw [abs_of_pos (by linarith)]) hw
  have hvdist := (abs_le.mp (abs_sub_rounded_le v)).1
  have hwdist := (abs_le.mp (abs_sub_rounded_le w)).2
  rw [heq] at hvdist
  linarith

/-- If a number and its double or more are rounded to the same number, this is zero or the least one
above zero. -/
theorem tiny_of_rounded_eq {v w : ℚ} (hv : 0 < v) (hdouble : 2 * v ≤ w)
    (heq : rounded v = rounded w) :
    w ≤ 2 ^ (-1075 : ℤ) ∨ (2 ^ (-1075 : ℤ) < v ∧ w < 3 * 2 ^ (-1075 : ℤ)) := by
  have hsmall : w < 2 ^ (-1022 : ℤ) := by
    by_contra hlarge
    exact rounded_ne_of_double hv hdouble (not_lt.mp hlarge) heq
  have hpos : (0 : ℚ) < 2 ^ (-1074 : ℤ) := zpow_pos two_pos _
  rw [rounded, rounded, placeOf_of_subnormal (by rw [abs_of_pos hv]; linarith),
    placeOf_of_subnormal (by rw [abs_of_pos (by linarith)]; exact hsmall)] at heq
  have hunits := Int.cast_injective (mul_right_cancel₀ hpos.ne' heq)
  rw [half_unit]
  generalize (2 : ℚ) ^ (-1074 : ℤ) = unit at hpos hunits ⊢
  have hvnear := isNearest_roundHalfEven (v / unit)
  have hwnear := isNearest_roundHalfEven (w / unit)
  rw [← hunits] at hwnear
  generalize roundHalfEven (v / unit) = units at hvnear hwnear
  have hratio : 2 * (v / unit) ≤ w / unit := by
    rw [← mul_div_assoc]
    exact div_le_div_of_nonneg_right hdouble hpos.le
  have hvpos : 0 < v / unit := div_pos hv hpos
  obtain ⟨hvge, hvle⟩ := abs_le.mp hvnear.le_half
  obtain ⟨-, hwle⟩ := abs_le.mp hwnear.le_half
  have hlow : -1 < units := by
    have : (-1 : ℚ) < units := by linarith
    exact_mod_cast this
  have hhigh : units < 2 := by
    have : (units : ℚ) < 2 := by linarith
    exact_mod_cast this
  obtain rfl | rfl : units = 0 ∨ units = 1 := by omega
  · left
    rw [Int.cast_zero, sub_zero, div_le_iff₀ hpos] at hwle
    linarith
  · right
    -- one is odd, so that neither number lies half way
    have hodd : ¬ Even (1 : ℤ) := by decide
    obtain ⟨hv1, -⟩ := abs_lt.mp (hvnear.resolve_right fun h => hodd h.2)
    obtain ⟨-, hw1⟩ := abs_lt.mp (hwnear.resolve_right fun h => hodd h.2)
    rw [Int.cast_one] at hv1 hw1
    constructor
    · have : 1 / 2 < v / unit := by linarith
      rw [lt_div_iff₀ hpos] at this
      linarith
    · have : w / unit < 3 / 2 := by linarith
      rw [div_lt_iff₀ hpos] at this
      linarith

/-- Two numbers end alike if both are too large, or both are rounded to zero or to the least number
above zero. -/
def EndAlike (small large : ℚ) : Prop :=
  large ≤ 2 ^ (-1075 : ℤ) ∨ 2 ^ 1024 - 2 ^ 970 ≤ small ∨
    (2 ^ (-1075 : ℤ) < small ∧ large < 3 * 2 ^ (-1075 : ℤ))

theorem tiny_lt_normal : 3 * (2 : ℚ) ^ (-1075 : ℤ) < 2 ^ (-1022 : ℤ) := by
  have hpos : (0 : ℚ) < 2 ^ (-1075 : ℤ) := zpow_pos two_pos _
  calc 3 * (2 : ℚ) ^ (-1075 : ℤ) < 2 ^ (2 : ℤ) * 2 ^ (-1075 : ℤ) := by
        apply mul_lt_mul_of_pos_right _ hpos
        norm_num
    _ = 2 ^ (2 + -1075 : ℤ) := (zpow_add₀ two_ne_zero _ _).symm
    _ ≤ 2 ^ (-1022 : ℤ) := zpow_le_zpow_right₀ one_le_two (by norm_num)

theorem roundedMagnitude_eq_zero {n : ℕ} {e : ℤ} (h : (n * 2 ^ e : ℚ) ≤ 2 ^ (-1075 : ℤ)) :
    roundedMagnitude n e = 0 := by
  have hpos : (0 : ℚ) < 2 ^ (-1074 : ℤ) := zpow_pos two_pos _
  have htiny := tiny_lt_normal
  have hsize : (0 : ℚ) ≤ n * 2 ^ e := by positivity
  apply roundedMagnitude_of_subnormal (by linarith)
  have hle : (n * 2 ^ e : ℚ) / 2 ^ (-1074 : ℤ) ≤ 1 / 2 := by
    rw [half_unit] at h
    rw [div_le_iff₀ hpos]
    linarith
  have habs : |(n * 2 ^ e : ℚ) / 2 ^ (-1074 : ℤ) - ((0 : ℕ) : ℤ)| =
      n * 2 ^ e / 2 ^ (-1074 : ℤ) := by
    rw [Nat.cast_zero, Int.cast_zero, sub_zero, abs_of_nonneg (div_nonneg hsize hpos.le)]
  rw [IsNearest, habs]
  rcases hle.lt_or_eq with hlt | heq
  · exact .inl hlt
  · exact .inr ⟨heq, by decide⟩

theorem roundedMagnitude_eq_one {n : ℕ} {e : ℤ} (hlow : (2 : ℚ) ^ (-1075 : ℤ) < n * 2 ^ e)
    (hhigh : (n * 2 ^ e : ℚ) < 3 * 2 ^ (-1075 : ℤ)) : roundedMagnitude n e = 1 := by
  have hpos : (0 : ℚ) < 2 ^ (-1074 : ℤ) := zpow_pos two_pos _
  apply roundedMagnitude_of_subnormal (hhigh.trans tiny_lt_normal)
  rw [half_unit] at hlow hhigh
  left
  rw [Nat.cast_one, Int.cast_one, abs_lt]
  constructor
  · rw [lt_sub_iff_add_lt, lt_div_iff₀ hpos]
    linarith
  · rw [sub_lt_iff_lt_add, div_lt_iff₀ hpos]
    linarith

theorem double_le {n : ℕ} {a b : ℤ} (h : a < b) : 2 * (n * 2 ^ a : ℚ) ≤ n * 2 ^ b := by
  have hpow : (2 : ℚ) * 2 ^ a ≤ 2 ^ b := by
    rw [← zpow_one_add₀ two_ne_zero]
    exact zpow_le_zpow_right₀ one_le_two (by omega)
  calc 2 * (n * 2 ^ a : ℚ) = n * (2 * 2 ^ a) := by ring
    _ ≤ n * 2 ^ b := mul_le_mul_of_nonneg_left hpow (Nat.cast_nonneg n)

theorem endAlike_of_round?_eq {negative : Bool} {n : ℕ} {a b : ℤ} (h : a < b)
    (heq : round? negative n a = round? negative n b) :
    EndAlike (n * 2 ^ a) (n * 2 ^ b) := by
  obtain ⟨hnone, hsome⟩ := round?_spec negative n a
  obtain ⟨-, hsome'⟩ := round?_spec negative n b
  rw [← heq] at hsome'
  have hsize : (0 : ℚ) ≤ n * 2 ^ a := by positivity
  cases hround : round? negative n a with
  | none =>
    rw [abs_signed, abs_of_nonneg hsize] at hnone
    exact .inr (.inl (hnone.mp hround))
  | some x =>
    have hrounded : rounded (n * 2 ^ a : ℚ) = rounded (n * 2 ^ b : ℚ) := by
      have hsame := (hsome x hround).2.2.symm.trans (hsome' x hround).2.2
      rw [rounded_signed, rounded_signed] at hsame
      cases negative with
      | false => exact hsame
      | true => exact neg_injective hsame
    by_cases hn : n = 0
    · left
      rw [hn, Nat.cast_zero, zero_mul]
      exact (zpow_pos two_pos _).le
    · have hpos : (0 : ℚ) < n * 2 ^ a := by positivity
      exact (tiny_of_rounded_eq hpos (double_le h) hrounded).imp_right .inr

theorem round?_eq_of_endAlike {negative : Bool} {n : ℕ} {a b : ℤ} (h : a < b)
    (hends : EndAlike (n * 2 ^ a) (n * 2 ^ b)) : round? negative n a = round? negative n b := by
  have hsize : (0 : ℚ) ≤ n * 2 ^ a := by positivity
  have hle : (n * 2 ^ a : ℚ) ≤ n * 2 ^ b := by
    have := double_le (n := n) h
    linarith
  rcases hends with hzero | hlarge | ⟨hlow, hhigh⟩
  · rw [round?, round?, roundedMagnitude_eq_zero hzero, roundedMagnitude_eq_zero (hle.trans hzero)]
  · have hnot (e : ℤ) (he : (n * 2 ^ a : ℚ) ≤ n * 2 ^ e) : ¬ roundedMagnitude n e < infinity := by
      rw [roundedMagnitude_lt_infinity, not_lt]
      exact hlarge.trans he
    rw [round?, round?, if_neg (hnot a le_rfl), if_neg (hnot b hle)]
  · rw [round?, round?, roundedMagnitude_eq_one hlow (hle.trans_lt hhigh),
      roundedMagnitude_eq_one (hlow.trans_le hle) hhigh]

theorem round?_eq_iff {negative : Bool} {n : ℕ} {a b : ℤ} (h : a < b) :
    round? negative n a = round? negative n b ↔ EndAlike (n * 2 ^ a) (n * 2 ^ b) :=
  ⟨endAlike_of_round?_eq h, round?_eq_of_endAlike h⟩

/-! Literals. -/

theorem numeral_lt_pow (cs : List Char) : numeral 16 cs < 16 ^ cs.length := by
  induction cs with
  | nil => decide
  | cons c cs ih =>
    have hdigit := Nat.mul_le_mul_right (16 ^ cs.length) (Nat.le_of_lt_succ (digitValue_lt c))
    rw [numeral_cons, List.length_cons, Nat.pow_succ]
    omega

namespace Literal

theorem length_digits (l : Literal) :
    l.digits.length = l.whole.length + (l.part.getD []).length := List.length_append

theorem sizeAt_lt (l : Literal) (e : ℤ) : l.sizeAt e < 2 ^ (4 * (l.whole.length : ℤ) + e) := by
  have hlt : (numeral 16 l.digits : ℚ) < 2 ^ (4 * (l.digits.length : ℤ)) := by
    rw [zpow_mul, zpow_natCast]
    exact_mod_cast numeral_lt_pow l.digits
  calc l.sizeAt e
    _ < 2 ^ (4 * (l.digits.length : ℤ)) * 2 ^ (-4 * ((l.part.getD []).length : ℤ) + e) :=
        mul_lt_mul_of_pos_right hlt (zpow_pos two_pos _)
    _ = 2 ^ (4 * (l.whole.length : ℤ) + e) := by
        rw [← zpow_add₀ two_ne_zero, length_digits]
        congr 1
        push_cast
        ring

theorem le_sizeAt {l : Literal} (h : numeral 16 l.digits ≠ 0) (e : ℤ) :
    2 ^ (-4 * ((l.part.getD []).length : ℤ) + e) ≤ l.sizeAt e := by
  have hone : (1 : ℚ) ≤ numeral 16 l.digits := by exact_mod_cast Nat.one_le_iff_ne_zero.mpr h
  exact le_mul_of_one_le_left (zpow_pos two_pos _).le hone

theorem parse?_eq_parseUnlimited?_iff (l : Literal) :
    parse? l.text = parseUnlimited? l.text ↔
      round? l.sign.negative (numeral 16 l.digits)
        (-4 * ((l.part.getD []).length : ℤ) + saturate l.exponent) =
      round? l.sign.negative (numeral 16 l.digits)
        (-4 * ((l.part.getD []).length : ℤ) + l.exponent) := by
  rw [parse?_eq_parseWith?, parseUnlimited?, l.parseWith?_text l.exponentBy_exponent?,
    l.parseWith?_text l.exponentBy_integer?]

/-- With so few digits an exponent beyond the limit decides alone, whatever the digits are. -/
theorem endAlike_of_length_le {l : Literal} (h : l.digits.length ≤ 24731) (e : ℤ) :
    EndAlike (l.sizeAt 100000) (l.sizeAt e) ∧ EndAlike (l.sizeAt e) (l.sizeAt (-100000)) := by
  have hlength := l.length_digits
  constructor
  · by_cases hzero : numeral 16 l.digits = 0
    · left
      rw [sizeAt, hzero, Nat.cast_zero, zero_mul]
      exact (zpow_pos two_pos _).le
    · right
      left
      calc (2 : ℚ) ^ 1024 - 2 ^ 970 ≤ 2 ^ (1024 : ℤ) := sub_le_self _ (pow_nonneg zero_le_two _)
        _ ≤ 2 ^ (-4 * ((l.part.getD []).length : ℤ) + 100000) :=
          zpow_le_zpow_right₀ one_le_two (by omega)
        _ ≤ l.sizeAt 100000 := le_sizeAt hzero 100000
  · left
    calc l.sizeAt (-100000) ≤ 2 ^ (4 * (l.whole.length : ℤ) + -100000) := (l.sizeAt_lt _).le
      _ ≤ 2 ^ (-1075 : ℤ) := zpow_le_zpow_right₀ one_le_two (by omega)

end Literal

/-- The limit on exponents makes no difference to a literal if its exponent is within the limit, or
if the number it is read as and the number it denotes end alike. With at most 24731 digits this is
always so. -/
theorem exponent_limit_harmless (l : Literal) :
    (parse? l.text = parseUnlimited? l.text ↔
      |l.exponent| ≤ 100000 ∨
      (100000 < l.exponent ∧ EndAlike (l.sizeAt 100000) (l.sizeAt l.exponent)) ∨
      (l.exponent < -100000 ∧ EndAlike (l.sizeAt l.exponent) (l.sizeAt (-100000)))) ∧
    (l.digits.length ≤ 24731 → parse? l.text = parseUnlimited? l.text) := by
  have hiff : parse? l.text = parseUnlimited? l.text ↔
      |l.exponent| ≤ 100000 ∨
      (100000 < l.exponent ∧ EndAlike (l.sizeAt 100000) (l.sizeAt l.exponent)) ∨
      (l.exponent < -100000 ∧ EndAlike (l.sizeAt l.exponent) (l.sizeAt (-100000))) := by
    rw [l.parse?_eq_parseUnlimited?_iff, abs_le]
    rcases lt_trichotomy l.exponent (saturate l.exponent) with hlow | hsame | hhigh
    · have hlimit : saturate l.exponent = -100000 ∧ l.exponent < -100000 := by
        rw [saturate] at hlow ⊢
        omega
      rw [hlimit.1, eq_comm, round?_eq_iff (by omega)]
      constructor
      · exact fun h => .inr (.inr ⟨hlimit.2, h⟩)
      · rintro (h | h | h)
        · omega
        · omega
        · exact h.2
    · have hwithin : -100000 ≤ l.exponent ∧ l.exponent ≤ 100000 := by
        rw [saturate] at hsame
        omega
      rw [← hsame]
      exact iff_of_true rfl (.inl hwithin)
    · have hlimit : saturate l.exponent = 100000 ∧ 100000 < l.exponent := by
        rw [saturate] at hhigh ⊢
        omega
      rw [hlimit.1, round?_eq_iff (by omega)]
      constructor
      · exact fun h => .inr (.inl ⟨hlimit.2, h⟩)
      · rintro (h | h | h)
        · omega
        · exact h.2
        · omega
  refine ⟨hiff, fun hlength => hiff.mpr ?_⟩
  obtain ⟨habove, hbelow⟩ := Literal.endAlike_of_length_le hlength l.exponent
  rw [abs_le]
  by_cases hhigh : 100000 < l.exponent
  · exact .inr (.inl ⟨hhigh, habove⟩)
  by_cases hlow : l.exponent < -100000
  · exact .inr (.inr ⟨hlow, hbelow⟩)
  · exact .inl ⟨by omega, by omega⟩

theorem numeral_zeros (n : ℕ) (cs : List Char) :
    numeral 16 (List.replicate n '0' ++ cs) = numeral 16 cs := by
  induction n with
  | zero => rfl
  | succ n ih =>
    rw [List.replicate_succ, List.cons_append, numeral_cons, ih]
    simp [digitValue]

/-- One digit behind a point and zeros, with an exponent just beyond the limit. -/
def behindZeros (n : ℕ) : Literal where
  sign := .absent
  marker := ['0', 'x']
  whole := ['0']
  part := some (List.replicate n '0' ++ ['1'])
  power := some ⟨'p', .absent, "100001".toList, by simp, by simp, rfl⟩
  marker_eq := by simp
  digits_ne := by simp
  hexadecimal := by simp [isHexDigit, isDecimalDigit]

theorem parseWith?_behindZeros {power? : List Char → Option Int} {e : ℤ} (n : ℕ)
    (h : (behindZeros n).exponentBy power? = some e) :
    parseWith? power? (behindZeros n).text = round? false 1 (-4 * (n + 1) + e) := by
  have hdigits : numeral 16 (behindZeros n).digits = 1 := by
    change numeral 16 (List.replicate (n + 1) '0' ++ ['1']) = 1
    rw [numeral_zeros]
    rfl
  have hlength : (((behindZeros n).part.getD []).length : ℤ) = n + 1 := by simp [behindZeros]
  rw [(behindZeros n).parseWith?_text h, hdigits, hlength]
  rfl

/-- The exponent 100001 is read as 100000, and the digit is so far behind the point that neither is
too large: the number two is read as one. -/
theorem two_read_as_one :
    parseUnlimited? (behindZeros 24999).text = some ⟨0x4000000000000000⟩ ∧
      parse? (behindZeros 24999).text = some ⟨0x3ff0000000000000⟩ ∧
      parse? (behindZeros 24999).text ≠ parseUnlimited? (behindZeros 24999).text := by
  have hexact : parseUnlimited? (behindZeros 24999).text = some ⟨0x4000000000000000⟩ := by
    rw [parseUnlimited?, parseWith?_behindZeros 24999 (Literal.exponentBy_integer? _)]
    decide
  have hread : parse? (behindZeros 24999).text = some ⟨0x3ff0000000000000⟩ := by
    rw [parse?_eq_parseWith?, parseWith?_behindZeros 24999 (Literal.exponentBy_exponent? _)]
    decide
  refine ⟨hexact, hread, ?_⟩
  rw [hexact, hread]
  decide

end Binary64

end ThreeAddress
