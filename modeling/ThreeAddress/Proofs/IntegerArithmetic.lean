import Mathlib.Data.Int.ModEq
import ThreeAddress.Operation

/-! Arithmetic of integers. Sums, differences and products are those of whole numbers up to a
multiple of 2^64, quotients are cut off towards zero, and the one quotient that does not fit wraps
around. -/

namespace ThreeAddress.Operation

/-! Wrapping around. -/

theorem toInt_modEq_iff {w : Int64} {n : Int} : w.toInt ≡ n [ZMOD 2 ^ 64] ↔ w = Int64.ofInt n := by
  constructor
  · intro h
    have hbmod : n.bmod (2 ^ 64) = w.toInt.bmod (2 ^ 64) := by
      rw [← Int.emod_bmod n, ← Int.emod_bmod w.toInt]
      exact congrArg (Int.bmod · (2 ^ 64)) h.symm
    rw [eq_comm, Int64.ofInt_eq_iff_bmod_eq_toInt, hbmod]
    exact Int64.toInt_bmod w
  · rintro rfl
    rw [Int64.toInt_ofInt]
    exact Int.bmod_emod

/-- What integers wrap around from: the operations that whole numbers have for all operands. -/
def Arith.exact? : Arith → Option (Int → Int → Int)
  | .add => some (· + ·)
  | .sub => some (· - ·)
  | .mul => some (· * ·)
  | .div | .idiv => none

theorem intArith_of_exact {op : Arith} {f : Int → Int → Int} (hop : op.exact? = some f)
    (x y : Int64) : intArith op x y = .ok (Int64.ofInt (f x.toInt y.toInt)) := by
  cases op with
  | add =>
    obtain rfl := Option.some.inj hop
    simp [intArith, Int64.ofInt_add]
  | sub =>
    obtain rfl := Option.some.inj hop
    simp [intArith, Int64.ofInt_sub]
  | mul =>
    obtain rfl := Option.some.inj hop
    simp [intArith, Int64.ofInt_mul]
  | div | idiv => nomatch hop

/-! Quotients. -/

/-- The quotient of whole numbers that is cut off towards zero: what remains is smaller than the
divisor and on the same side of zero as the dividend. -/
def IsQuotient (x y q : Int) : Prop :=
  ∃ r : Int, x = q * y + r ∧ r.natAbs < y.natAbs ∧ (r = 0 ∨ r.sign = x.sign)

theorem isQuotient_tdiv (x : Int) {y : Int} (hy : y ≠ 0) : IsQuotient x y (x.tdiv y) := by
  refine ⟨x.tmod y, ?_, ?_, ?_⟩
  · rw [Int.mul_comm, Int.mul_tdiv_add_tmod]
  · rw [Int.natAbs_tmod]
    exact Nat.mod_lt _ (Int.natAbs_pos.mpr hy)
  · have hsign := Int.sign_tmod x y
    split at hsign
    · exact .inl (Int.sign_eq_zero_iff_zero.mp hsign)
    · exact .inr hsign

theorem same_side {x r : Int} (h : r = 0 ∨ r.sign = x.sign) :
    (0 ≤ x → 0 ≤ r) ∧ (x ≤ 0 → r ≤ 0) := by
  rcases h with rfl | h
  · simp
  · constructor
    · intro hx
      rw [← Int.sign_nonneg_iff, h]
      exact Int.sign_nonneg_iff.mpr hx
    · intro hx
      rw [← Int.sign_nonpos_iff, h]
      exact Int.sign_nonpos_iff.mpr hx

/-- Two remainders on the same side of zero differ by less than the divisor, and they differ by a
multiple of it. -/
theorem IsQuotient.unique {x y q q' : Int} (h : IsQuotient x y q) (h' : IsQuotient x y q') :
    q = q' := by
  obtain ⟨r, hx, hr, hsign⟩ := h
  obtain ⟨r', hx', hr', hsign'⟩ := h'
  have hdiff : r' - r = (q - q') * y := by
    rw [Int.sub_mul]
    omega
  have hclose : (r' - r).natAbs < y.natAbs := by
    have hside := same_side hsign
    have hside' := same_side hsign'
    omega
  have hzero : (q - q') * y = 0 :=
    hdiff ▸ Int.eq_zero_of_dvd_of_natAbs_lt_natAbs ⟨q - q', by rw [hdiff, Int.mul_comm]⟩ hclose
  have hy : y ≠ 0 := by
    rintro rfl
    exact absurd hr (Nat.not_lt_zero _)
  rcases Int.mul_eq_zero.mp hzero with h | h
  · omega
  · exact absurd h hy

/-- Only the least word divided by minus one has a quotient that is no word. -/
theorem toInt_div {x y : Int64} (h : ¬ (x.toInt = -2 ^ 63 ∧ y.toInt = -1)) :
    (x / y).toInt = x.toInt.tdiv y.toInt := by
  by_cases hx : x = Int64.minValue
  · refine Int64.toInt_div_of_ne_right x y ?_
    rintro rfl
    exact h ⟨by rw [hx]; rfl, rfl⟩
  · exact Int64.toInt_div_of_ne_left x y hx

theorem isQuotient_iff {x y w : Int64} (hy : y ≠ 0)
    (h : ¬ (x.toInt = -2 ^ 63 ∧ y.toInt = -1)) :
    IsQuotient x.toInt y.toInt w.toInt ↔ w = x / y := by
  have hne : y.toInt ≠ 0 := fun h0 => hy (Int64.toInt_inj.mp h0)
  have hquotient := isQuotient_tdiv x.toInt hne
  rw [← toInt_div h] at hquotient
  constructor
  · intro hw
    exact Int64.toInt_inj.mp (hw.unique hquotient)
  · rintro rfl
    exact hquotient

theorem arith_of_tags {op : Arith} {a b : Value} (h : a.tag ≠ b.tag) :
    arith op a b = .error .typeMismatch := by
  cases a <;> cases b <;> first | rfl | exact absurd rfl h

/-- The arithmetic of integers, and that there is none between an integer and anything else. -/
theorem integers_wrap_around (x y : Int64) :
    (∀ op f, Arith.exact? op = some f → ∃ z, arith op (.int x) (.int y) = .ok (.int z) ∧
      ∀ w : Int64, w.toInt ≡ f x.toInt y.toInt [ZMOD 2 ^ 64] ↔ w = z) ∧
    (arith .idiv (.int x) (.int y) = .error .divisionByZero ↔ y = 0) ∧
    (y ≠ 0 → ∃ q, arith .idiv (.int x) (.int y) = .ok (.int q) ∧
      if x.toInt = -2 ^ 63 ∧ y.toInt = -1 then q.toInt = -2 ^ 63
      else ∀ w : Int64, IsQuotient x.toInt y.toInt w.toInt ↔ w = q) ∧
    arith .div (.int x) (.int y) = .error .typeMismatch ∧
    ∀ op v, Value.tag v ≠ .int →
      arith op (.int x) v = .error .typeMismatch ∧ arith op v (.int x) = .error .typeMismatch := by
  refine ⟨?_, ?_, ?_, rfl, ?_⟩
  · intro op f hop
    refine ⟨_, ?_, fun w => toInt_modEq_iff⟩
    rw [arith, intArith_of_exact hop]
    rfl
  · by_cases hy : y = 0 <;> simp [arith, intArith, hy, Except.map]
  · intro hy
    refine ⟨x / y, by simp [arith, intArith, hy, Except.map], ?_⟩
    split
    · rename_i h
      obtain rfl : x = Int64.minValue := Int64.toInt_inj.mp h.1
      obtain rfl : y = -1 := Int64.toInt_inj.mp h.2
      rfl
    · rename_i h
      exact fun w => isQuotient_iff hy h
  · intro op v hv
    exact ⟨arith_of_tags hv.symm, arith_of_tags hv⟩

/-- The least integer and minus one: their product and their quotient are both the least integer
again. -/
theorem least_and_minus_one_wrap_around :
    Arith.exact? .mul = some (· * ·) ∧ (-1 : Int64) ≠ 0 ∧
      (∃ z : Int64, arith .mul (.int Int64.minValue) (.int (-1)) = .ok (.int z) ∧
        z.toInt ≡ 2 ^ 63 [ZMOD 2 ^ 64]) ∧
      ∃ q : Int64, arith .idiv (.int Int64.minValue) (.int (-1)) = .ok (.int q) ∧
        q.toInt = -2 ^ 63 := by
  obtain ⟨hwraps, -, hquotient, -⟩ := integers_wrap_around Int64.minValue (-1)
  have hne : (-1 : Int64) ≠ 0 := by decide
  obtain ⟨z, hz, hcongr⟩ := hwraps .mul _ rfl
  obtain ⟨q, hq, hleast⟩ := hquotient hne
  rw [if_pos ⟨rfl, rfl⟩] at hleast
  exact ⟨rfl, hne, ⟨z, hz, (hcongr z).mpr rfl⟩, q, hq, hleast⟩

end ThreeAddress.Operation
