import Mathlib.Tactic.NormNum
import Mathlib.Tactic.Ring
import ThreeAddress.Binary64.HexText
import ThreeAddress.Proofs.Numerals

/-! Sixteen digits of a numeral and the knowledge whether something follows them are enough to round
it. The digits that are read are compared with the whole number they stand for: what is left out is
less than one in the last place that is kept, and the places that rounding looks at lie further to
the left. -/

namespace ThreeAddress

namespace Text

theorem foldl_numeral (base start : Nat) (cs : List Char) :
    cs.foldl (fun n c => n * base + digitValue c) start =
      start * base ^ cs.length + numeral base cs := by
  induction cs generalizing start with
  | nil => simp [numeral]
  | cons c cs ih =>
    rw [numeral, List.foldl_cons, List.foldl_cons, ih, ih (0 * base + digitValue c),
      List.length_cons, Nat.pow_succ, Nat.zero_mul, Nat.zero_add, Nat.add_mul, Nat.add_assoc,
      Nat.mul_assoc, Nat.mul_comm base]

theorem numeral_cons (base : Nat) (c : Char) (cs : List Char) :
    numeral base (c :: cs) = digitValue c * base ^ cs.length + numeral base cs := by
  rw [numeral, List.foldl_cons, foldl_numeral, Nat.zero_mul, Nat.zero_add]

theorem digitValue_lt (c : Char) : digitValue c < 16 := by
  have hle {a b : Char} (h : a ≤ b) : a.toNat ≤ b.toNat := h
  rw [digitValue]
  split
  · rename_i h
    have := hle h.2
    change c.toNat ≤ 57 at this
    omega
  · split
    · rename_i h
      have := hle h.2
      change c.toNat ≤ 102 at this
      omega
    · split
      · rename_i h
        have := hle h.2
        change c.toNat ≤ 70 at this
        omega
      · decide

end Text

namespace Binary64

open Text

/-! The number itself. -/

def scaledDigits? (cs : List Char) : Option (Nat × Int) :=
  let (whole, part) := splitAtFirst '.' cs
  let digits := whole ++ part.getD []
  if digits ≠ [] ∧ digits.all isHexDigit then
    some (numeral 16 digits, -4 * (part.getD []).length)
  else
    none

/-- An unsigned finite numeral `m * 2 ^ e` in lower case, as `m` and `e`. -/
def scaled? (cs : List Char) : Option (Nat × Int) :=
  let (digits, power) := splitAtFirst 'p' (dropMarker cs)
  match power with
  | none => scaledDigits? digits
  | some power => do
    let exponent ← exponent? power
    let (m, scale) ← scaledDigits? digits
    return (m, scale + exponent)

def round? (negative : Bool) (m : Nat) (e : Int) : Option Binary64 :=
  if roundedMagnitude m e < infinity then some (ofMagnitude negative (roundedMagnitude m e))
  else none

/-! Readings. -/

namespace Reading

/-- The reading tells of a number `n` with the given number of digits after the point: the mantissa
is `n` without its last `dropped` digits, which make up `rest`. -/
structure Tells (r : Reading) (n places dropped rest : Nat) : Prop where
  value : n = r.mantissa * 16 ^ dropped + rest
  rest_lt : rest < 16 ^ dropped
  sticky : r.sticky = true ↔ rest ≠ 0
  scale : r.scale = 4 * dropped - 4 * places
  full : dropped = 0 ∨ r.significant = keptDigits
  significant_le : r.significant ≤ keptDigits
  mantissa_lt : r.mantissa < 16 ^ r.significant
  le_mantissa : r.significant ≠ 0 → 16 ^ (r.significant - 1) ≤ r.mantissa

theorem tells_nothing : Tells {} 0 0 0 0 := by
  constructor <;> simp [keptDigits]

section Digits

variable {r : Reading} {n places dropped rest digit : Nat}

theorem Tells.nothing_dropped (h : r.Tells n places dropped rest)
    (hroom : r.significant < keptDigits) : dropped = 0 ∧ rest = 0 := by
  have hdropped : dropped = 0 := by
    rcases h.full with hzero | hfull
    · exact hzero
    · omega
  have hlt := h.rest_lt
  rw [hdropped, Nat.pow_zero] at hlt
  exact ⟨hdropped, by omega⟩

theorem mantissa_keep (r : Reading) (digit : Nat) :
    (r.keep digit).mantissa = r.mantissa * 16 + digit := by
  rw [keep]
  split
  · simp only [Nat.shiftLeft_eq]
  · rename_i h
    simp only [ne_eq, not_or, Decidable.not_not] at h
    omega

theorem sticky_keep (r : Reading) (digit : Nat) : (r.keep digit).sticky = r.sticky := by
  rw [keep]
  split <;> rfl

theorem scale_keep (r : Reading) (digit : Nat) : (r.keep digit).scale = r.scale := by
  rw [keep]
  split <;> rfl

theorem significant_keep_le (r : Reading) (digit : Nat) :
    (r.keep digit).significant ≤ r.significant + 1 := by
  rw [keep]
  split
  · exact Nat.le_refl _
  · exact Nat.le_succ _

theorem Tells.mantissa_keep_bounds (h : r.Tells n places dropped rest) (hdigit : digit < 16) :
    (r.keep digit).mantissa < 16 ^ (r.keep digit).significant ∧
      ((r.keep digit).significant ≠ 0 →
        16 ^ ((r.keep digit).significant - 1) ≤ (r.keep digit).mantissa) := by
  have hbound := h.mantissa_lt
  have hlead := h.le_mantissa
  by_cases hcounts : r.mantissa ≠ 0 ∨ digit ≠ 0
  · have hsignificant : (r.keep digit).significant = r.significant + 1 := by
      rw [Reading.keep, if_pos hcounts]
    rw [mantissa_keep, hsignificant, Nat.pow_succ, Nat.add_sub_cancel]
    refine ⟨by omega, fun _ => ?_⟩
    by_cases hzero : r.significant = 0
    · have hmantissa : r.mantissa = 0 := by simpa [hzero] using hbound
      rw [hzero, Nat.pow_zero]
      omega
    · have hpow : 16 ^ r.significant = 16 ^ (r.significant - 1) * 16 := by
        rw [← Nat.pow_succ]
        congr 1
        omega
      have := hlead hzero
      omega
  · rw [Reading.keep, if_neg hcounts]
    exact ⟨hbound, hlead⟩

theorem Tells.keep (h : r.Tells n places dropped rest) (hdigit : digit < 16)
    (hroom : r.significant < keptDigits) (scale : Int) (later : Nat)
    (hscale : scale = -4 * (later : Int)) :
    ({ r.keep digit with scale := scale } : Reading).Tells (n * 16 + digit) later 0 0 := by
  obtain ⟨rfl, rfl⟩ := h.nothing_dropped hroom
  have hvalue : n = r.mantissa := by simpa using h.value
  have hsticky : r.sticky = false := by simpa using h.sticky
  have hcount := r.significant_keep_le digit
  obtain ⟨hbound, hlead⟩ := h.mantissa_keep_bounds hdigit
  refine ⟨?_, by simp, ?_, by simpa using hscale, .inl rfl, ?_, hbound, hlead⟩
  · simp [mantissa_keep, hvalue]
  · simp [sticky_keep, hsticky]
  · exact hcount.trans hroom

theorem Tells.skip (h : r.Tells n places dropped rest) (hdigit : digit < 16)
    (hfull : r.significant = keptDigits) (scale : Int) (later : Nat)
    (hscale : scale = 4 * (dropped + 1 : Nat) - 4 * (later : Int)) :
    ({ r.skip digit with scale := scale } : Reading).Tells (n * 16 + digit) later (dropped + 1)
      (rest * 16 + digit) := by
  have hvalue := h.value
  have hlt := h.rest_lt
  refine ⟨?_, ?_, ?_, hscale, .inr hfull, h.significant_le, h.mantissa_lt, h.le_mantissa⟩
  · change n * 16 + digit = r.mantissa * 16 ^ (dropped + 1) + (rest * 16 + digit)
    rw [Nat.pow_succ, hvalue]
    ring
  · rw [Nat.pow_succ]
    omega
  · simp only [Reading.skip, Bool.or_eq_true, bne_iff_ne, h.sticky]
    omega

theorem Tells.wholeDigit (h : r.Tells n 0 dropped rest) (hdigit : digit < 16) :
    ∃ dropped rest, (r.wholeDigit digit).Tells (n * 16 + digit) 0 dropped rest := by
  rw [Reading.wholeDigit]
  have hscale := h.scale
  by_cases hroom : r.significant < keptDigits
  · obtain ⟨rfl, rfl⟩ := h.nothing_dropped hroom
    rw [if_pos hroom]
    exact ⟨0, 0, h.keep hdigit hroom (r.keep digit).scale 0 (by simp [scale_keep, hscale])⟩
  · rw [if_neg hroom]
    have hfull : r.significant = keptDigits := by
      have := h.significant_le
      omega
    exact ⟨_, _, h.skip hdigit hfull _ 0 (by push_cast; omega)⟩

theorem Tells.partDigit (h : r.Tells n places dropped rest) (hdigit : digit < 16) :
    ∃ dropped rest, (r.partDigit digit).Tells (n * 16 + digit) (places + 1) dropped rest := by
  rw [Reading.partDigit]
  have hscale := h.scale
  by_cases hroom : r.significant < keptDigits
  · obtain ⟨rfl, rfl⟩ := h.nothing_dropped hroom
    rw [if_pos hroom]
    exact ⟨0, 0, h.keep hdigit hroom _ (places + 1) (by push_cast; omega)⟩
  · rw [if_neg hroom]
    have hfull : r.significant = keptDigits := by
      have := h.significant_le
      omega
    exact ⟨_, _, h.skip hdigit hfull r.scale (places + 1) (by push_cast; omega)⟩

end Digits

theorem tells_whole (cs : List Char) {r : Reading} {n dropped rest : Nat}
    (h : r.Tells n 0 dropped rest) :
    ∃ dropped rest, ((cs.map digitValue).foldl Reading.wholeDigit r).Tells
      (cs.foldl (fun n c => n * 16 + digitValue c) n) 0 dropped rest := by
  induction cs generalizing r n dropped rest with
  | nil => exact ⟨_, _, h⟩
  | cons c cs ih =>
    obtain ⟨dropped, rest, h⟩ := h.wholeDigit (digitValue_lt c)
    exact ih h

theorem tells_part (cs : List Char) {r : Reading} {n places dropped rest : Nat}
    (h : r.Tells n places dropped rest) :
    ∃ dropped rest, ((cs.map digitValue).foldl Reading.partDigit r).Tells
      (cs.foldl (fun n c => n * 16 + digitValue c) n) (places + cs.length) dropped rest := by
  induction cs generalizing r n places dropped rest with
  | nil => exact ⟨_, _, h⟩
  | cons c cs ih =>
    obtain ⟨dropped, rest, h⟩ := h.partDigit (digitValue_lt c)
    rw [List.length_cons, Nat.add_comm cs.length, ← Nat.add_assoc]
    exact ih h

theorem exists_tells_ofDigits (whole part : List Char) :
    ∃ dropped rest, (ofDigits whole part).Tells (numeral 16 (whole ++ part)) part.length
      dropped rest := by
  obtain ⟨_, _, hwhole⟩ := tells_whole whole tells_nothing
  obtain ⟨dropped, rest, h⟩ := tells_part part hwhole
  rw [Nat.zero_add] at h
  refine ⟨dropped, rest, ?_⟩
  rw [numeral, List.foldl_append]
  exact h

end Reading

/-! Rounding. -/

theorem divideToEven_eq (n k : Nat) : divideToEven n k =
    if 2 * (n % 2 ^ k) < 2 ^ k ∨ (2 * (n % 2 ^ k) = 2 ^ k ∧ n / 2 ^ k % 2 = 0) then n / 2 ^ k
    else n / 2 ^ k + 1 := by
  simp only [divideToEven, Nat.one_shiftLeft, Nat.shiftRight_eq_div_pow]

theorem roundShift_eq {n k : Nat} (sticky : Bool) (hk : k ≤ 64) : roundShift n k sticky =
    if 2 ^ (k - 1) < n % 2 ^ k ∨ (n % 2 ^ k = 2 ^ (k - 1) ∧ (sticky ∨ n / 2 ^ k % 2 = 1)) then
      n / 2 ^ k + 1 else n / 2 ^ k := by
  simp only [roundShift, Nat.one_shiftLeft, Nat.shiftRight_eq_div_pow]
  rw [if_neg (by omega)]

theorem div_mod_of_cut {m n rest k d : Nat} (hn : n = m * 2 ^ d + rest) (hrest : rest < 2 ^ d) :
    n / 2 ^ (k + d) = m / 2 ^ k ∧ n % 2 ^ (k + d) = m % 2 ^ k * 2 ^ d + rest := by
  have hk : 0 < 2 ^ k := Nat.two_pow_pos k
  rw [Nat.pow_add, Nat.div_mod_unique (Nat.mul_pos hk (Nat.two_pow_pos d))]
  constructor
  · rw [hn]
    nth_rewrite 3 [← Nat.mod_add_div m (2 ^ k)]
    ring
  · have hmod : m % 2 ^ k + 1 ≤ 2 ^ k := Nat.mod_lt m hk
    have := Nat.mul_le_mul_right (2 ^ d) hmod
    rw [Nat.add_mul, Nat.one_mul] at this
    omega

/-- Dropping places of a number that was cut off, with the mark that tells of it, is dropping places
of the number itself. -/
theorem roundShift_eq_divideToEven {m n rest k d : Nat} {sticky : Bool} (hm : m < 2 ^ 64)
    (hk : 0 < k) (hn : n = m * 2 ^ d + rest) (hrest : rest < 2 ^ d)
    (hsticky : sticky = true ↔ rest ≠ 0) : roundShift m k sticky = divideToEven n (k + d) := by
  obtain ⟨hdiv, hmod⟩ := div_mod_of_cut (k := k) hn hrest
  have hdouble : 2 ^ k = 2 * 2 ^ (k - 1) := by
    rw [← Nat.pow_succ']
    congr 1
    omega
  have hpow : 2 ^ (k + d) = 2 * (2 ^ (k - 1) * 2 ^ d) := by
    rw [Nat.pow_add, hdouble, Nat.mul_assoc]
  rw [divideToEven_eq, hdiv, hmod, hpow]
  by_cases hlarge : 64 < k
  · -- not even half of the last place that is kept
    have hhalf : m + 1 ≤ 2 ^ (k - 1) :=
      Nat.lt_of_lt_of_le hm (Nat.pow_le_pow_right (by decide) (by omega))
    have hle := Nat.mul_le_mul_right (2 ^ d) hhalf
    rw [Nat.add_mul, Nat.one_mul] at hle
    rw [roundShift, if_pos hlarge, Nat.mod_eq_of_lt (by omega), Nat.div_eq_of_lt (by omega),
      if_pos (.inl (by omega))]
  · rw [roundShift_eq sticky (by omega)]
    rcases Nat.lt_trichotomy (m % 2 ^ k) (2 ^ (k - 1)) with hlt | heq | hgt
    · have hle := Nat.mul_le_mul_right (2 ^ d) (Nat.succ_le_of_lt hlt)
      rw [Nat.succ_mul] at hle
      rw [if_neg (by omega), if_pos (.inl (by omega))]
    · rw [heq]
      by_cases hzero : rest = 0
      · have hexact : sticky = false := by simpa [hzero] using hsticky
        by_cases heven : m / 2 ^ k % 2 = 0
        · rw [if_neg (by simp [hexact, heven]), if_pos (.inr ⟨by omega, heven⟩)]
        · have hodd : m / 2 ^ k % 2 = 1 := by omega
          rw [if_pos (.inr ⟨rfl, .inr hodd⟩), if_neg (by omega)]
      · rw [if_pos (.inr ⟨rfl, .inl (hsticky.mpr hzero)⟩), if_neg (by omega)]
    · have hle := Nat.mul_le_mul_right (2 ^ d) (Nat.succ_le_of_lt hgt)
      rw [Nat.succ_mul] at hle
      rw [if_pos (.inl hgt), if_neg (by omega)]

theorem divideToEven_bounds (n k : Nat) :
    n / 2 ^ k ≤ divideToEven n k ∧ divideToEven n k ≤ n / 2 ^ k + 1 := by
  rw [divideToEven_eq]
  split <;> omega

theorem roundedUnits_bounds {n : Nat} (hn : n ≠ 0) (e : Int) :
    roundedUnits n e ≤ 2 ^ 53 ∧
      (lastPlace n e = e + n.log2 - 52 → 2 ^ 52 ≤ roundedUnits n e) := by
  have hlow : 2 ^ n.log2 ≤ n := Nat.log2_self_le hn
  have hhigh : n < 2 ^ (n.log2 + 1) := Nat.lt_log2_self
  have hplace : e + n.log2 - 52 ≤ lastPlace n e := le_max_left _ _
  rw [roundedUnits]
  by_cases hexact : lastPlace n e ≤ e
  · rw [if_pos hexact, Nat.shiftLeft_eq]
    constructor
    · calc n * 2 ^ (e - lastPlace n e).toNat
          ≤ 2 ^ (n.log2 + 1) * 2 ^ (e - lastPlace n e).toNat := Nat.mul_le_mul_right _ hhigh.le
        _ = 2 ^ (n.log2 + 1 + (e - lastPlace n e).toNat) := (Nat.pow_add ..).symm
        _ ≤ 2 ^ 53 := Nat.pow_le_pow_right (by decide) (by omega)
    · intro htop
      calc 2 ^ 52 = 2 ^ (n.log2 + (e - lastPlace n e).toNat) := by
            congr 1
            omega
        _ = 2 ^ n.log2 * 2 ^ (e - lastPlace n e).toNat := Nat.pow_add ..
        _ ≤ n * 2 ^ (e - lastPlace n e).toNat := Nat.mul_le_mul_right _ hlow
  · rw [if_neg hexact]
    obtain ⟨hge, hle⟩ := divideToEven_bounds n (lastPlace n e - e).toNat
    have hpos : 0 < 2 ^ (lastPlace n e - e).toNat := Nat.two_pow_pos _
    constructor
    · refine hle.trans ?_
      rw [Nat.succ_le_iff, Nat.div_lt_iff_lt_mul hpos, ← Nat.pow_add]
      exact hhigh.trans_le (Nat.pow_le_pow_right (by decide) (by omega))
    · intro htop
      refine le_trans ?_ hge
      rw [Nat.le_div_iff_mul_le hpos, ← Nat.pow_add]
      exact le_trans (Nat.pow_le_pow_right (by decide) (by omega)) hlow

theorem roundedMagnitude_eq {n : Nat} (hn : n ≠ 0) (e : Int) : roundedMagnitude n e =
    (lastPlace n e + 1074).toNat * 2 ^ 52 + roundedUnits n e := by
  rw [roundedMagnitude, if_neg hn, Nat.shiftLeft_eq]

theorem infinity_eq : infinity = 2047 * 2 ^ 52 := Nat.shiftLeft_eq _ _

theorem encoded_eq {top : Int} {units : Nat} (hle : units ≤ 2 ^ 53)
    (hge : -1022 ≤ top → 2 ^ 52 ≤ units) :
    (if 1023 < top then none
      else if top < -1022 then some (ofMagnitude false units)
      else
        let (kept, top) := if units = 1 <<< 53 then (units >>> 1, top + 1) else (units, top)
        if 1023 < top then none
        else some (ofMagnitude false (((top + 1023).toNat <<< 52) + kept % (1 <<< 52)))) =
    if (max (top - 52) (-1074) + 1074).toNat * 2 ^ 52 + units < infinity then
      some (ofMagnitude false ((max (top - 52) (-1074) + 1074).toNat * 2 ^ 52 + units))
    else none := by
  simp only [Nat.shiftLeft_eq, infinity_eq]
  by_cases hnormal : -1022 ≤ top
  · have hplace : (max (top - 52) (-1074) + 1074).toNat = (top + 1022).toNat := by omega
    have hunits := hge hnormal
    rw [hplace, if_neg (not_lt.mpr hnormal)]
    by_cases hcarry : units = 2 ^ 53
    · simp only [hcarry, Nat.one_mul, if_true]
      by_cases hlarge : 1023 < top + 1
      · rw [if_pos hlarge, ite_self, if_neg (by omega)]
      · have hbits : (top + 1 + 1023).toNat * 2 ^ 52 + 2 ^ 53 >>> 1 % 2 ^ 52 =
            (top + 1022).toNat * 2 ^ 52 + 2 ^ 53 := by
          rw [show 2 ^ 53 >>> 1 % 2 ^ 52 = 0 by decide]
          omega
        rw [if_neg (by omega), if_neg hlarge, if_pos (by omega), hbits]
    · simp only [Nat.one_mul, hcarry, if_false]
      by_cases hlarge : 1023 < top
      · rw [if_pos hlarge, if_neg (by omega)]
      · have hbits : (top + 1023).toNat * 2 ^ 52 + units % 2 ^ 52 =
            (top + 1022).toNat * 2 ^ 52 + units := by omega
        rw [if_neg hlarge, if_neg hlarge, if_pos (by omega), hbits]
  · have hplace : (max (top - 52) (-1074) + 1074).toNat = 0 := by omega
    rw [hplace, if_neg (by omega), if_pos (by omega), if_pos (by omega), Nat.zero_mul, Nat.zero_add]

namespace Reading

section Rounding

variable {r : Reading} {n places dropped rest : Nat}

theorem Tells.mantissa_lt_word (h : r.Tells n places dropped rest) : r.mantissa < 2 ^ 64 := by
  refine h.mantissa_lt.trans_le ?_
  calc 16 ^ r.significant ≤ 16 ^ 16 := Nat.pow_le_pow_right (by decide) h.significant_le
    _ = 2 ^ 64 := by norm_num

theorem Tells.long_mantissa (h : r.Tells n places dropped rest) (hdropped : dropped ≠ 0) :
    60 ≤ r.mantissa.log2 := by
  have hfull : r.significant = 16 := h.full.resolve_left hdropped
  have hlead := h.le_mantissa (by omega)
  rw [hfull] at hlead
  have hlarge : 2 ^ 60 ≤ r.mantissa := le_trans (by norm_num) hlead
  rw [Nat.le_log2 (by omega)]
  exact hlarge

theorem Tells.value_eq (h : r.Tells n places dropped rest) :
    n = r.mantissa * 2 ^ (4 * dropped) + rest ∧ rest < 2 ^ (4 * dropped) := by
  rw [Nat.pow_mul]
  exact ⟨h.value, h.rest_lt⟩

theorem Tells.log2_eq (h : r.Tells n places dropped rest) (hm : r.mantissa ≠ 0) :
    n ≠ 0 ∧ n.log2 = r.mantissa.log2 + 4 * dropped := by
  obtain ⟨hvalue, hrest⟩ := h.value_eq
  have hlow : 2 ^ r.mantissa.log2 ≤ r.mantissa := Nat.log2_self_le hm
  have hhigh : r.mantissa + 1 ≤ 2 ^ (r.mantissa.log2 + 1) := Nat.lt_log2_self
  have hlow' := Nat.mul_le_mul_right (2 ^ (4 * dropped)) hlow
  have hhigh' := Nat.mul_le_mul_right (2 ^ (4 * dropped)) hhigh
  rw [← Nat.pow_add] at hlow' hhigh'
  rw [Nat.add_mul, Nat.one_mul] at hhigh'
  have hpos := Nat.two_pow_pos (r.mantissa.log2 + 4 * dropped)
  have hn : n ≠ 0 := by omega
  refine ⟨hn, ?_⟩
  rw [Nat.log2_eq_iff hn, Nat.add_right_comm]
  omega

/-- The places that are kept of the mantissa are those that are kept of the number. -/
theorem Tells.kept_eq (h : r.Tells n places dropped rest) (hm : r.mantissa ≠ 0) {e shift : Int}
    (hshift : shift = lastPlace n (-4 * places + e) - (r.scale + e)) :
    (if shift ≤ 0 then r.mantissa <<< (-shift).toNat
      else roundShift r.mantissa shift.toNat r.sticky) = roundedUnits n (-4 * places + e) := by
  obtain ⟨hvalue, hrest⟩ := h.value_eq
  obtain ⟨-, hlog⟩ := h.log2_eq hm
  have hscale := h.scale
  have hplace : -4 * places + e + n.log2 - 52 ≤ lastPlace n (-4 * places + e) := le_max_left _ _
  rw [roundedUnits]
  by_cases hexact : shift ≤ 0
  · have hdropped : dropped = 0 := by
      by_contra hne
      have := h.long_mantissa hne
      omega
    rw [hdropped] at hvalue hrest hscale
    obtain rfl : n = r.mantissa := by omega
    rw [if_pos hexact, if_pos (by omega)]
    congr 1
    omega
  · rw [if_neg hexact, if_neg (by omega),
      roundShift_eq_divideToEven h.mantissa_lt_word (by omega) hvalue hrest h.sticky]
    congr 1
    omega

theorem Tells.compose?_eq (h : r.Tells n places dropped rest) (hm : r.mantissa ≠ 0) (e : Int) :
    compose? r.mantissa (r.scale + e) r.sticky = round? false n (-4 * places + e) := by
  obtain ⟨hn, hlog⟩ := h.log2_eq hm
  have hscale := h.scale
  obtain ⟨hle, hge⟩ := roundedUnits_bounds hn (-4 * places + e)
  have htop : r.scale + e + (r.mantissa.log2 + 1 : Int) - 1 = -4 * places + e + n.log2 := by
    omega
  have hshift : (r.mantissa.log2 + 1 : Int) - (if -1022 ≤ -4 * places + e + (n.log2 : Int) then 53
      else 53 - (-1022 - (-4 * places + e + n.log2))) =
        lastPlace n (-4 * places + e) - (r.scale + e) := by
    rw [lastPlace]
    split <;> omega
  rw [round?, roundedMagnitude_eq hn]
  simp only [compose?, htop]
  rw [h.kept_eq hm hshift]
  rw [lastPlace] at hge ⊢
  exact encoded_eq hle fun hnormal => hge (by omega)

end Rounding

end Reading

theorem round?_zero (e : Int) : round? false 0 e = some (ofMagnitude false 0) := by
  rw [round?, roundedMagnitude, if_pos rfl, if_pos (by decide)]

namespace Reading

theorem Tells.eq_zero {r : Reading} {n places dropped rest : Nat}
    (h : r.Tells n places dropped rest) (hm : r.mantissa = 0) : n = 0 := by
  have hroom : r.significant < keptDigits := by
    by_contra hfull
    have hne : r.significant ≠ 0 := by
      simp only [keptDigits] at hfull
      omega
    have := h.le_mantissa hne
    have := Nat.pow_pos (n := r.significant - 1) (show 0 < 16 by decide)
    omega
  obtain ⟨hdropped, hrest⟩ := h.nothing_dropped hroom
  rw [h.value, hm, hrest, Nat.zero_mul]

end Reading

/-- What is read of the digits rounds to the same as the digits themselves. -/
theorem reading?_bind (digits : List Char) (e : Int) :
    ((reading? digits).bind fun r => if r.mantissa = 0 then some (ofMagnitude false 0)
      else compose? r.mantissa (r.scale + e) r.sticky) =
    (scaledDigits? digits).bind fun (m, scale) => round? false m (scale + e) := by
  simp only [reading?, scaledDigits?]
  split
  · obtain ⟨dropped, rest, htells⟩ := Reading.exists_tells_ofDigits
      (splitAtFirst '.' digits).1 ((splitAtFirst '.' digits).2.getD [])
    simp only [Option.bind_some]
    split
    · rename_i hzero
      rw [htells.eq_zero hzero, round?_zero]
    · rename_i hne
      exact htells.compose?_eq hne e
  · rfl

theorem finite?_eq (cs : List Char) :
    finite? cs = (scaled? cs).bind fun (m, e) => round? false m e := by
  simp only [finite?, scaled?]
  obtain ⟨digits, power⟩ := splitAtFirst 'p' (dropMarker cs)
  cases power with
  | none => simpa using reading?_bind digits 0
  | some power =>
    cases hpower : exponent? power with
    | none => simp [hpower]
    | some exponent =>
      simp only [hpower, Option.bind_eq_bind, Option.bind_some, Option.bind_assoc]
      exact reading?_bind digits exponent

end Binary64

end ThreeAddress
