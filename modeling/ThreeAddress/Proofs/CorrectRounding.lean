import Mathlib.Algebra.Order.Field.Power
import Mathlib.Data.Int.Log
import Mathlib.Data.Rat.Floor
import Mathlib.Tactic.Linarith
import ThreeAddress.Proofs.FloatLiteral

/-! Reading is correctly rounded. What rounding means is said about rational numbers, and the
computation on natural numbers is shown to agree with it, up to the place where the result would be
too large. -/

namespace ThreeAddress

namespace Binary64

open Text

/-! Rounding of rational numbers. -/

/-- The integer nearest to `q`, a half going to the even neighbour. -/
def roundHalfEven (q : ℚ) : ℤ :=
  if q - ⌊q⌋ < 1 / 2 ∨ (q - ⌊q⌋ = 1 / 2 ∧ Even ⌊q⌋) then ⌊q⌋ else ⌊q⌋ + 1

/-- The exponent of the last place that is kept of `v`: 53 places from the first one on, and
units of `2 ^ (-1074)` below the normal range. -/
def placeOf (v : ℚ) : ℤ := if 2 ^ (-1022 : ℤ) ≤ |v| then Int.log 2 |v| - 52 else -1074

def rounded (v : ℚ) : ℚ := roundHalfEven (v / 2 ^ placeOf v) * 2 ^ placeOf v

/-- `n` is the nearest integer to `q`, and the even one of two. -/
def IsNearest (q : ℚ) (n : ℤ) : Prop := |q - n| < 1 / 2 ∨ (|q - n| = 1 / 2 ∧ Even n)

theorem isNearest_roundHalfEven (q : ℚ) : IsNearest q (roundHalfEven q) := by
  have hfloor := Int.floor_le q
  have hceil := Int.lt_floor_add_one q
  rw [roundHalfEven]
  split
  · rename_i hdown
    rwa [IsNearest, abs_of_nonneg (sub_nonneg.mpr hfloor)]
  · rename_i hup
    simp only [not_or, not_and, not_lt] at hup
    have habs : |q - ((⌊q⌋ + 1 : ℤ) : ℚ)| = 1 - (q - ⌊q⌋) := by
      push_cast
      rw [abs_of_neg (by linarith)]
      ring
    rw [IsNearest, habs]
    rcases hup.1.lt_or_eq with hlt | heq
    · left
      linarith
    · right
      exact ⟨by linarith, Int.even_add_one.mpr (hup.2 heq.symm)⟩

theorem IsNearest.le_half {q : ℚ} {n : ℤ} (h : IsNearest q n) : |q - n| ≤ 1 / 2 := by
  rcases h with hlt | ⟨heq, -⟩
  · exact hlt.le
  · exact heq.le

theorem abs_sub_le_add (q : ℚ) (m n : ℤ) : ((|m - n| : ℤ) : ℚ) ≤ |q - m| + |q - n| := by
  rw [Int.cast_abs, Int.cast_sub, abs_sub_comm q m]
  exact abs_sub_le _ _ _

theorem IsNearest.unique {q : ℚ} {m n : ℤ} (hm : IsNearest q m) (hn : IsNearest q n) : m = n := by
  have hdist := abs_sub_le_add q m n
  have hmle := hm.le_half
  have hnle := hn.le_half
  by_cases hlt : |m - n| < 1
  · exact sub_eq_zero.mp (Int.abs_lt_one_iff.mp hlt)
  · -- at the distance one both are ties, and not both even
    have hge : (1 : ℚ) ≤ (|m - n| : ℤ) := by exact_mod_cast not_lt.mp hlt
    have hone : |m - n| = 1 := by
      have : ((|m - n| : ℤ) : ℚ) = 1 := by linarith
      exact_mod_cast this
    have hmeven : Even m := (hm.resolve_left (by linarith)).2
    have hneven : Even n := (hn.resolve_left (by linarith)).2
    have heven : Even |m - n| := even_abs.mpr (hmeven.sub hneven)
    rw [hone] at heven
    exact absurd heven (by decide)

theorem roundHalfEven_eq_iff {q : ℚ} {n : ℤ} : roundHalfEven q = n ↔ IsNearest q n := by
  constructor
  · rintro rfl
    exact isNearest_roundHalfEven q
  · exact (isNearest_roundHalfEven q).unique

theorem roundHalfEven_neg (q : ℚ) : roundHalfEven (-q) = -roundHalfEven q := by
  have h := isNearest_roundHalfEven q
  rw [roundHalfEven_eq_iff, IsNearest, Int.cast_neg, neg_sub_neg, abs_sub_comm, even_neg]
  exact h

theorem IsNearest.le_dist {q : ℚ} {n : ℤ} (h : IsNearest q n) (m : ℤ) : |q - n| ≤ |q - m| := by
  by_cases heq : m = n
  · rw [heq]
  · have hone : (1 : ℚ) ≤ (|n - m| : ℤ) := by
      exact_mod_cast Int.one_le_abs (sub_ne_zero.mpr (Ne.symm heq))
    have hdist := abs_sub_le_add q n m
    have hle := h.le_half
    linarith

theorem placeOf_neg (v : ℚ) : placeOf (-v) = placeOf v := by rw [placeOf, placeOf, abs_neg]

theorem rounded_neg (v : ℚ) : rounded (-v) = -rounded v := by
  rw [rounded, rounded, placeOf_neg, neg_div, roundHalfEven_neg, Int.cast_neg, neg_mul]

theorem rounded_signed (negative : Bool) (v : ℚ) :
    rounded (signed negative v) = signed negative (rounded v) := by
  cases negative with
  | false => rfl
  | true => exact rounded_neg v

theorem abs_signed (negative : Bool) (v : ℚ) : |signed negative v| = |v| := by
  cases negative with
  | false => rfl
  | true => exact abs_neg v

theorem rounded_le_dist (v : ℚ) (m : ℤ) : |v - rounded v| ≤ |v - m * 2 ^ placeOf v| := by
  have hpos : (0 : ℚ) < 2 ^ placeOf v := zpow_pos two_pos _
  have hscale : ∀ k : ℤ, |v - k * 2 ^ placeOf v| = |v / 2 ^ placeOf v - k| * 2 ^ placeOf v := by
    intro k
    rw [← abs_of_pos hpos, ← abs_mul, abs_of_pos hpos, sub_mul, div_mul_cancel₀ _ hpos.ne']
  rw [rounded, hscale, hscale]
  exact mul_le_mul_of_nonneg_right ((isNearest_roundHalfEven _).le_dist m) hpos.le

/-! The number that a float stands for. -/

def toRat (x : Binary64) : ℚ := signed x.negative (x.significand * 2 ^ x.unit)

theorem significand_lt (x : Binary64) : x.significand < 2 ^ 53 := by
  have hfraction := x.fraction_lt
  rw [significand, Nat.one_shiftLeft]
  split <;> omega

theorem le_unit (x : Binary64) : -1074 ≤ x.unit := by
  rw [unit]
  split <;> omega

theorem abs_toRat (x : Binary64) : |x.toRat| = x.significand * 2 ^ x.unit := by
  rw [toRat, abs_signed]
  exact abs_of_nonneg (by positivity)

theorem exists_toRat_eq {x : Binary64} {place : ℤ} (h : place ≤ x.unit) :
    ∃ m : ℤ, x.toRat = m * 2 ^ place := by
  obtain ⟨k, hk⟩ := Int.le.dest h
  refine ⟨Text.negateIf x.negative (x.significand * 2 ^ k), ?_⟩
  rw [toRat, ← hk, zpow_add₀ two_ne_zero, zpow_natCast]
  cases x.negative <;> simp [signed, Text.negateIf] <;> ring

theorem placeOf_of_normal {v : ℚ} (h : -1074 < placeOf v) : 2 ^ (placeOf v + 52) ≤ |v| := by
  rw [placeOf] at h ⊢
  split at h
  · rename_i hnormal
    rw [if_pos hnormal, sub_add_cancel]
    exact Int.zpow_log_le_self (by decide) ((zpow_pos two_pos _).trans_le hnormal)
  · omega

theorem abs_toRat_lt {x : Binary64} {place : ℤ} (h : x.unit < place) :
    |x.toRat| < 2 ^ (place + 52) := by
  have hlt : (x.significand : ℚ) < 2 ^ 53 := by exact_mod_cast x.significand_lt
  calc |x.toRat| = x.significand * 2 ^ x.unit := x.abs_toRat
    _ < 2 ^ 53 * 2 ^ x.unit := mul_lt_mul_of_pos_right hlt (zpow_pos two_pos _)
    _ = 2 ^ (53 + x.unit) := by rw [zpow_add₀ two_ne_zero]; rfl
    _ ≤ 2 ^ (place + 52) := zpow_le_zpow_right₀ one_le_two (by omega)

/-- No float is nearer to a number than the rounded one. -/
theorem rounded_nearest (v : ℚ) (x : Binary64) : |v - rounded v| ≤ |v - x.toRat| := by
  by_cases hunit : placeOf v ≤ x.unit
  · obtain ⟨m, hm⟩ := exists_toRat_eq hunit
    rw [hm]
    exact rounded_le_dist v m
  · -- between the float and `v` there is a power of two
    rw [not_le] at hunit
    have hsmall := abs_toRat_lt hunit
    have hlarge : 2 ^ (placeOf v + 52) ≤ |v| := placeOf_of_normal (x.le_unit.trans_lt hunit)
    have hpower : ((2 ^ 52 : ℤ) : ℚ) * 2 ^ placeOf v = 2 ^ (placeOf v + 52) := by
      rw [zpow_add₀ two_ne_zero, mul_comm]
      norm_num
    have hdist : |v| - 2 ^ (placeOf v + 52) ≤ |v - x.toRat| := by
      have := abs_sub_abs_le_abs_sub v x.toRat
      linarith
    refine le_trans ?_ hdist
    rcases le_total 0 v with hv | hv
    · refine (rounded_le_dist v (2 ^ 52)).trans_eq ?_
      rw [abs_of_nonneg hv] at hlarge ⊢
      rw [hpower, abs_of_nonneg (sub_nonneg.mpr hlarge)]
    · refine (rounded_le_dist v (-2 ^ 52)).trans_eq ?_
      rw [abs_of_nonpos hv] at hlarge ⊢
      rw [Int.cast_neg, neg_mul, hpower, sub_neg_eq_add, abs_of_nonpos (by linarith)]
      ring

/-! What is computed on natural numbers. -/

theorem isNearest_divideToEven (n k : ℕ) : IsNearest (n / 2 ^ k) (divideToEven n k) := by
  have hfloor : ⌊(n / 2 ^ k : ℚ)⌋ = (n / 2 ^ k : ℕ) := by
    have h := Rat.floor_natCast_div_natCast n (2 ^ k)
    rw [Nat.cast_pow, Nat.cast_ofNat] at h
    exact h
  have hrest : (n / 2 ^ k : ℚ) - (n / 2 ^ k : ℕ) = (n % 2 ^ k : ℕ) / 2 ^ k := by
    have h : (n : ℚ) = 2 ^ k * (n / 2 ^ k : ℕ) + (n % 2 ^ k : ℕ) := by
      exact_mod_cast (Nat.div_add_mod n (2 ^ k)).symm
    rw [div_sub' (by positivity), ← eq_sub_iff_add_eq'.mpr h.symm]
  have hhalf (a : ℕ) : (a / 2 ^ k : ℚ) < 1 / 2 ↔ 2 * a < 2 ^ k := by
    rw [div_lt_div_iff₀ (by positivity) two_pos, one_mul, mul_comm]
    exact_mod_cast Iff.rfl
  have htie (a : ℕ) : (a / 2 ^ k : ℚ) = 1 / 2 ↔ 2 * a = 2 ^ k := by
    rw [div_eq_div_iff (by positivity) two_ne_zero, one_mul, mul_comm]
    exact_mod_cast Iff.rfl
  rw [← roundHalfEven_eq_iff, roundHalfEven, hfloor, Int.cast_natCast, hrest, divideToEven_eq]
  simp only [hhalf, htie, Int.even_coe_nat, Nat.even_iff]
  split <;> rfl

section Scaled

variable {n : ℕ} (e : ℤ)

theorem log_scaled (hn : n ≠ 0) : Int.log 2 (n * 2 ^ e : ℚ) = e + n.log2 := by
  have hpos : (0 : ℚ) < n * 2 ^ e := by positivity
  have hlow : ((2 ^ n.log2 : ℕ) : ℚ) ≤ n := by exact_mod_cast Nat.log2_self_le hn
  have hhigh : (n : ℚ) < (2 ^ (n.log2 + 1) : ℕ) := by exact_mod_cast Nat.lt_log2_self
  rw [Nat.cast_pow, Nat.cast_ofNat, ← zpow_natCast] at hlow hhigh
  have hpow : (0 : ℚ) < 2 ^ e := zpow_pos two_pos e
  apply le_antisymm
  · rw [← Int.lt_add_one_iff, ← Int.lt_zpow_iff_log_lt (by decide) hpos]
    calc (n : ℚ) * 2 ^ e < 2 ^ ((n.log2 + 1 : ℕ) : ℤ) * 2 ^ e := mul_lt_mul_of_pos_right hhigh hpow
      _ = ((2 : ℕ) : ℚ) ^ (e + n.log2 + 1) := by
        rw [← zpow_add₀ two_ne_zero]
        congr 1
        push_cast
        ring
  · rw [← Int.zpow_le_iff_le_log (by decide) hpos]
    calc ((2 : ℕ) : ℚ) ^ (e + n.log2) = 2 ^ (n.log2 : ℤ) * 2 ^ e := by
          rw [← zpow_add₀ two_ne_zero, add_comm]
          rfl
      _ ≤ n * 2 ^ e := mul_le_mul_of_nonneg_right hlow hpow.le

theorem placeOf_scaled (hn : n ≠ 0) : placeOf (n * 2 ^ e) = lastPlace n e := by
  have hpos : (0 : ℚ) < n * 2 ^ e := by positivity
  have hnormal : (2 : ℚ) ^ (-1022 : ℤ) ≤ n * 2 ^ e ↔ -1022 ≤ e + n.log2 := by
    rw [← log_scaled e hn, ← Int.zpow_le_iff_le_log (by decide) hpos]
    rfl
  rw [placeOf, abs_of_pos hpos, log_scaled e hn, lastPlace]
  simp only [hnormal]
  split <;> omega

theorem isNearest_roundedUnits (n : ℕ) :
    IsNearest (n * 2 ^ e / 2 ^ lastPlace n e) (roundedUnits n e) := by
  rw [mul_div_assoc, ← zpow_sub₀ two_ne_zero, roundedUnits]
  by_cases hexact : lastPlace n e ≤ e
  · have hshift : (2 : ℚ) ^ (e - lastPlace n e) = 2 ^ (e - lastPlace n e).toNat := by
      rw [← zpow_natCast, Int.toNat_of_nonneg (by omega)]
    rw [if_pos hexact, hshift, Nat.shiftLeft_eq]
    left
    simp
  · have hshift : (n : ℚ) * 2 ^ (e - lastPlace n e) = n / 2 ^ (lastPlace n e - e).toNat := by
      rw [← neg_sub, zpow_neg, ← div_eq_mul_inv, ← zpow_natCast, Int.toNat_of_nonneg (by omega)]
    rw [if_neg hexact, hshift]
    exact isNearest_divideToEven n _

theorem rounded_scaled (hn : n ≠ 0) :
    rounded (n * 2 ^ e) = roundedUnits n e * 2 ^ lastPlace n e := by
  rw [rounded, placeOf_scaled e hn, roundHalfEven_eq_iff.mpr (isNearest_roundedUnits e n),
    Int.cast_natCast]

end Scaled

/-- A carry out of the 53 places leads to the first number with the next exponent. -/
theorem significand_of_magnitude {x : Binary64} {place : ℤ} {units : ℕ} (hplace : -1074 ≤ place)
    (hle : units ≤ 2 ^ 53) (hge : place ≠ -1074 → 2 ^ 52 ≤ units)
    (hx : x.magnitude = (place + 1074).toNat * 2 ^ 52 + units) :
    (x.significand * 2 ^ x.unit : ℚ) = units * 2 ^ place := by
  have hexponent := x.exponentField_eq_div
  have hfraction := x.fraction_eq_mod
  by_cases hsubnormal : units < 2 ^ 52
  · have hlast : place = -1074 := by
      by_contra hne
      have := hge hne
      omega
    obtain ⟨hsignificand, hunit⟩ := significand_of_subnormal (show x.exponentField = 0 by omega)
    have hmagnitude : x.magnitude = units := by omega
    rw [hsignificand, hunit, hmagnitude, hlast]
  · obtain ⟨hsignificand, hunit⟩ := significand_of_normal (show x.exponentField ≠ 0 by omega)
    by_cases hcarry : units = 2 ^ 53
    · have hfirst : x.significand = 2 ^ 52 := by omega
      have hnext : x.unit = place + 1 := by omega
      rw [hfirst, hnext, hcarry, zpow_add₀ two_ne_zero]
      push_cast
      ring
    · have hsame : x.significand = units := by omega
      have hlast : x.unit = place := by omega
      rw [hsame, hlast]

theorem toRat_ofMagnitude {negative : Bool} {place : ℤ} {units : ℕ} (hplace : -1074 ≤ place)
    (hle : units ≤ 2 ^ 53) (hge : place ≠ -1074 → 2 ^ 52 ≤ units)
    (hfinite : (place + 1074).toNat * 2 ^ 52 + units < infinity) :
    (ofMagnitude negative ((place + 1074).toNat * 2 ^ 52 + units)).toRat =
      signed negative (units * 2 ^ place) := by
  have hword : (place + 1074).toNat * 2 ^ 52 + units < 2 ^ 63 := by
    rw [infinity_eq] at hfinite
    omega
  rw [toRat, negative_ofMagnitude hword,
    significand_of_magnitude hplace hle hge (magnitude_ofMagnitude hword)]

/-- The least number that is too large, in units of the last place that is kept there. -/
theorem limit_eq : (2 ^ 1024 - 2 ^ 970 : ℚ) = (2 ^ 53 - 1 / 2) * 2 ^ (971 : ℤ) := by
  have hhigh : (2 : ℚ) ^ 1024 = 2 ^ 53 * 2 ^ 971 := by rw [← pow_add]
  have hlow : (2 : ℚ) ^ 970 = 1 / 2 * 2 ^ 971 := by
    rw [pow_succ' 2 970, ← mul_assoc, one_div_mul_cancel two_ne_zero, one_mul]
  rw [hhigh, hlow, sub_mul]
  rfl

theorem scaled_lt {n : ℕ} (hn : n ≠ 0) (e : ℤ) : (n * 2 ^ e : ℚ) < 2 ^ (lastPlace n e + 53) := by
  have hpos : (0 : ℚ) < n * 2 ^ e := by positivity
  have hplace : e + n.log2 - 52 ≤ lastPlace n e := le_max_left _ _
  have h : Int.log 2 (n * 2 ^ e : ℚ) < lastPlace n e + 53 := by
    rw [log_scaled e hn]
    omega
  exact (Int.lt_zpow_iff_log_lt (by decide) hpos).mpr h

/-- Half a unit above the largest number there is a tie, and the even neighbour is too large. -/
theorem isNearest_lt_iff {q : ℚ} {n : ℤ} (h : IsNearest q n) : n < 2 ^ 53 ↔ q < 2 ^ 53 - 1 / 2 := by
  obtain ⟨hlow, hhigh⟩ := abs_le.mp h.le_half
  constructor
  · intro hlt
    have hle : (n : ℚ) ≤ 2 ^ 53 - 1 := by exact_mod_cast Int.le_sub_one_of_lt hlt
    by_contra hge
    rw [not_lt] at hge
    have htie : |q - n| = 1 / 2 := by
      rw [abs_of_nonneg (by linarith)]
      linarith
    have heven : Even n := (h.resolve_left (by rw [htie]; exact lt_irrefl _)).2
    have hn : n = 2 ^ 53 - 1 := by
      have : (n : ℚ) = 2 ^ 53 - 1 := by linarith
      exact_mod_cast this
    rw [hn] at heven
    exact absurd heven (by decide)
  · intro hlt
    have : (n : ℚ) < 2 ^ 53 := by linarith
    exact_mod_cast this

theorem roundedMagnitude_lt_infinity (n : ℕ) (e : ℤ) :
    roundedMagnitude n e < infinity ↔ (n * 2 ^ e : ℚ) < 2 ^ 1024 - 2 ^ 970 := by
  have hpos : (0 : ℚ) < 2 ^ (971 : ℤ) := zpow_pos two_pos _
  rw [limit_eq]
  by_cases hn : n = 0
  · rw [hn, Nat.cast_zero, zero_mul]
    exact iff_of_true (by rw [roundedMagnitude, if_pos rfl]; decide) (mul_pos (by norm_num) hpos)
  obtain ⟨hle, hge⟩ := roundedUnits_bounds hn e
  rw [roundedMagnitude_eq hn, infinity_eq]
  rcases lt_trichotomy (lastPlace n e) 971 with hsmall | heq | hlarge
  · refine iff_of_true (by omega) ((scaled_lt hn e).trans_le ?_)
    calc (2 : ℚ) ^ (lastPlace n e + 53) ≤ 2 ^ (52 + 971 : ℤ) :=
          zpow_le_zpow_right₀ one_le_two (by omega)
      _ = 2 ^ (52 : ℤ) * 2 ^ (971 : ℤ) := zpow_add₀ two_ne_zero _ _
      _ ≤ (2 ^ 53 - 1 / 2) * 2 ^ (971 : ℤ) := mul_le_mul_of_nonneg_right (by norm_num) hpos.le
  · have hnearest := isNearest_roundedUnits e n
    rw [heq] at hnearest ⊢
    rw [← div_lt_iff₀ hpos, ← isNearest_lt_iff hnearest]
    omega
  · have htop : lastPlace n e = e + n.log2 - 52 := by
      rw [lastPlace] at hlarge ⊢
      omega
    have hunits := hge htop
    have hnormal := @placeOf_of_normal (n * 2 ^ e) (by rw [placeOf_scaled e hn]; omega)
    rw [placeOf_scaled e hn, abs_of_nonneg (by positivity)] at hnormal
    refine iff_of_false (by omega) (not_lt.mpr (le_trans ?_ hnormal))
    calc ((2 : ℚ) ^ 53 - 1 / 2) * 2 ^ (971 : ℤ) ≤ 2 ^ (53 : ℤ) * 2 ^ (971 : ℤ) :=
          mul_le_mul_of_nonneg_right (by norm_num) hpos.le
      _ = 2 ^ (53 + 971 : ℤ) := (zpow_add₀ two_ne_zero _ _).symm
      _ ≤ 2 ^ (lastPlace n e + 52) := zpow_le_zpow_right₀ one_le_two (by omega)

theorem rounded_zero : rounded 0 = 0 := by
  have hzero : roundHalfEven 0 = 0 := roundHalfEven_eq_iff.mpr (.inl (by simp))
  rw [rounded, zero_div, hzero, Int.cast_zero, zero_mul]

theorem toRat_roundedMagnitude {negative : Bool} {n : ℕ} {e : ℤ}
    (h : roundedMagnitude n e < infinity) :
    (ofMagnitude negative (roundedMagnitude n e)).toRat =
      signed negative (rounded (n * 2 ^ e)) := by
  by_cases hn : n = 0
  · have hzero := @toRat_ofMagnitude negative (-1074) 0 le_rfl (by decide) (by simp) (by decide)
    rw [hn, Nat.cast_zero, zero_mul, rounded_zero, roundedMagnitude, if_pos rfl]
    simpa using hzero
  · obtain ⟨hle, hge⟩ := roundedUnits_bounds hn e
    have hplace : -1074 ≤ lastPlace n e := le_max_right _ _
    have hnormal : lastPlace n e ≠ -1074 → 2 ^ 52 ≤ roundedUnits n e := by
      intro hne
      apply hge
      rw [lastPlace] at hne ⊢
      omega
    rw [roundedMagnitude_eq hn] at h ⊢
    rw [toRat_ofMagnitude hplace hle hnormal h, rounded_scaled e hn]

theorem round?_spec (negative : Bool) (n : ℕ) (e : ℤ) :
    (round? negative n e = none ↔ 2 ^ 1024 - 2 ^ 970 ≤ |signed negative (n * 2 ^ e)|) ∧
    ∀ x, round? negative n e = some x → x.isFinite = true ∧ x.negative = negative ∧
      x.toRat = rounded (signed negative (n * 2 ^ e)) := by
  have habs : |(n : ℚ) * 2 ^ e| = n * 2 ^ e := abs_of_nonneg (by positivity)
  rw [round?, abs_signed, habs, ← not_lt, ← roundedMagnitude_lt_infinity, rounded_signed]
  split
  · rename_i hfinite
    refine ⟨by simpa using hfinite, ?_⟩
    rintro x ⟨⟩
    have hword : roundedMagnitude n e < 2 ^ 63 := hfinite.trans (by decide)
    refine ⟨?_, negative_ofMagnitude hword, toRat_roundedMagnitude hfinite⟩
    rw [isFinite, magnitude_ofMagnitude hword]
    exact decide_eq_true hfinite
  · rename_i hlarge
    exact ⟨by simpa using hlarge, by simp⟩

theorem map_negateIf_round? (negative : Bool) (n : ℕ) (e : ℤ) :
    (round? false n e).map (negateIf negative) = round? negative n e := by
  rw [round?, round?]
  split
  · rename_i hfinite
    rw [Option.map_some, negateIf_ofMagnitude (hfinite.trans (by decide))]
  · rfl

/-- A literal is read as the number nearest to it, with its sign, a tie going to the even
neighbour. It is refused if and only if rounding leaves the finite numbers. -/
theorem parse?_correctly_rounded (l : Literal) (h : |l.exponent| ≤ 100000) :
    (parse? l.text = none ↔ 2 ^ 1024 - 2 ^ 970 ≤ |l.value|) ∧
    (|l.value| < 2 ^ 1024 - 2 ^ 970 →
      ∃ x, parse? l.text = some x ∧ x.isFinite = true ∧ x.negative = l.sign.negative ∧
        x.toRat = rounded l.value ∧
        ∀ y : Binary64, y.isFinite = true → |l.value - x.toRat| ≤ |l.value - y.toRat|) := by
  obtain ⟨hnone, hsome⟩ := round?_spec l.sign.negative (numeral 16 l.digits)
    (-4 * ((l.part.getD []).length : ℤ) + l.exponent)
  have hread := Literal.parse?_text h
  rw [map_negateIf_round?] at hread
  rw [← hread, ← l.value_eq] at hnone hsome
  refine ⟨hnone, fun hsmall => ?_⟩
  cases hparse : parse? l.text with
  | none => exact absurd (hnone.mp hparse) (not_le.mpr hsmall)
  | some x =>
    obtain ⟨hfinite, hsign, hvalue⟩ := hsome x hparse
    refine ⟨x, rfl, hfinite, hsign, hvalue, fun y _ => ?_⟩
    rw [hvalue]
    exact rounded_nearest l.value y

/-- The first sixteen digits lie half way between two numbers, and the last digit is not kept. -/
def longTie : Literal where
  sign := .minus
  marker := ['0', 'X']
  whole := ['1']
  part := some "0000000000000800000000000000A".toList
  power := none
  marker_eq := by simp
  digits_ne := by simp
  hexadecimal := by rfl

theorem last_digit_breaks_tie :
    parse? longTie.text = some ⟨0xbff0000000000001⟩ ∧
      (⟨0xbff0000000000001⟩ : Binary64).toRat = rounded longTie.value := by
  have hread : parse? longTie.text = some ⟨0xbff0000000000001⟩ := by decide +kernel
  have hspec := parse?_correctly_rounded longTie (by simp [longTie, Literal.exponent])
  have hsmall : |longTie.value| < 2 ^ 1024 - 2 ^ 970 := by
    rw [← not_le, ← hspec.1, hread]
    simp
  obtain ⟨x, hx, -, -, hvalue, -⟩ := hspec.2 hsmall
  obtain rfl : _ = x := Option.some.inj (hread.symm.trans hx)
  exact ⟨hread, hvalue⟩

end Binary64

end ThreeAddress
