import ThreeAddress.Text.Blank
import ThreeAddress.Text.Numeral

/-! Written numerals read back. Trimming and cutting are described on texts in which the place
of the blanks and of the mark is known. -/

namespace ThreeAddress.Text

theorem dropWhile_blanks {blanks cs : List Char} (hb : ∀ c ∈ blanks, isBlank c = true)
    (hc : ∀ c, cs.head? = some c → isBlank c = false) :
    (blanks ++ cs).dropWhile isBlank = cs := by
  induction blanks with
  | nil =>
    cases cs with
    | nil => rfl
    | cons c cs => simp [hc c rfl]
  | cons b blanks ih =>
    rw [List.cons_append, List.dropWhile_cons_of_pos (hb b (by simp))]
    exact ih fun c h => hb c (by simp [h])

/-- Trimming removes blanks on both sides of a text that neither begins nor ends with one. -/
theorem trim_between {left cs right : List Char} (hl : ∀ c ∈ left, isBlank c = true)
    (hr : ∀ c ∈ right, isBlank c = true) (hh : ∀ c, cs.head? = some c → isBlank c = false)
    (ht : ∀ c, cs.getLast? = some c → isBlank c = false) :
    trim (left ++ cs ++ right) = cs := by
  cases cs with
  | nil =>
    have blanks : ∀ c ∈ left ++ right, isBlank c = true := by
      intro c h
      rcases List.mem_append.mp h with h | h
      · exact hl c h
      · exact hr c h
    have hn : (left ++ right).dropWhile isBlank = [] := by
      simpa using @dropWhile_blanks (left ++ right) [] blanks (by simp)
    rw [List.append_nil, trim, hn]
    rfl
  | cons c cs =>
    have ends : ∀ d, (c :: cs).reverse.head? = some d → isBlank d = false := by
      intro d hd
      exact ht d (List.head?_reverse.symm.trans hd)
    rw [trim, List.append_assoc, dropWhile_blanks hl (by simpa using hh c rfl),
      List.reverse_append, dropWhile_blanks (by simpa using hr) ends, List.reverse_reverse]

theorem trim_of_ends {cs : List Char} (hh : ∀ c, cs.head? = some c → isBlank c = false)
    (ht : ∀ c, cs.getLast? = some c → isBlank c = false) : trim cs = cs := by
  simpa using @trim_between [] cs [] (by simp) (by simp) hh ht

theorem trim_of_not_blank {cs : List Char} (h : ∀ c ∈ cs, isBlank c = false) : trim cs = cs :=
  trim_of_ends (fun c hc => h c (List.mem_of_head? hc)) fun c hc => h c (List.mem_of_getLast? hc)

theorem splitAtFirst_of_mem {mark : Char} {cs rest : List Char} (h : mark ∉ cs) :
    splitAtFirst mark (cs ++ mark :: rest) = (cs, some rest) := by
  have hp : ∀ c ∈ cs, (c != mark) = true := by
    intro c hc
    rw [bne_iff_ne]
    rintro rfl
    exact h hc
  rw [splitAtFirst, List.takeWhile_append_of_pos hp, List.dropWhile_append_of_pos hp]
  simp

theorem splitAtFirst_of_not_mem {mark : Char} {cs : List Char} (h : mark ∉ cs) :
    splitAtFirst mark cs = (cs, none) := by
  have hp : ∀ c ∈ cs, (c != mark) = true := by
    intro c hc
    rw [bne_iff_ne]
    rintro rfl
    exact h hc
  have ht : cs.takeWhile (· != mark) = cs := by
    simpa using @List.takeWhile_append_of_pos _ (· != mark) cs [] hp
  have hd : cs.dropWhile (· != mark) = [] := by
    simpa using @List.dropWhile_append_of_pos _ (· != mark) cs [] hp
  rw [splitAtFirst, ht, hd]
  rfl

theorem splitAtFirst_eq_some {mark : Char} {cs raw rest : List Char}
    (h : splitAtFirst mark cs = (raw, some rest)) : mark ∉ raw ∧ cs = raw ++ mark :: rest := by
  by_cases hmem : mark ∈ cs
  · obtain ⟨front, back, rfl, hfront⟩ := List.eq_append_cons_of_mem hmem
    rw [splitAtFirst_of_mem hfront, Prod.mk.injEq, Option.some.injEq] at h
    obtain ⟨rfl, rfl⟩ := h
    exact ⟨hfront, rfl⟩
  · rw [splitAtFirst_of_not_mem hmem] at h
    cases h

theorem toLower_of_not_capital {c : Char} (h : ¬ (65 ≤ c.toNat ∧ c.toNat ≤ 90)) :
    c.toLower = c := by
  have hval : ¬ (c.val ≥ 65 ∧ c.val ≤ 90) := by
    rw [ge_iff_le, UInt32.le_iff_toNat_le, UInt32.le_iff_toNat_le]
    exact h
  exact dif_neg hval

/-! Digits. -/

theorem digitValue_digitChar {n : Nat} (h : n < 16) : digitValue n.digitChar = n := by
  revert n
  decide

theorem isHexDigit_digitChar {n : Nat} (h : n < 16) : isHexDigit n.digitChar = true := by
  revert n
  decide

theorem isBlank_of_isHexDigit {c : Char} (h : isHexDigit c = true) : isBlank c = false := by
  have bounds : 48 ≤ c.toNat ∧ c.toNat ≤ 102 := by
    simp only [isHexDigit, isDecimalDigit, Bool.or_eq_true, Bool.and_eq_true, decide_eq_true_eq,
      Char.le_def, UInt32.le_iff_toNat_le] at h
    rcases h with (h | h) | h
    · change 48 ≤ c.toNat ∧ c.toNat ≤ 57 at h
      omega
    · change 97 ≤ c.toNat ∧ c.toNat ≤ 102 at h
      omega
    · change 65 ≤ c.toNat ∧ c.toNat ≤ 70 at h
      omega
  simp only [isBlank, Bool.or_eq_false_iff, Bool.and_eq_false_iff, beq_eq_false_iff_ne,
    decide_eq_false_iff_not]
  omega

/-- The number read so far counts as much as its distance from the end tells. -/
theorem numeral_concat (base : Nat) (cs : List Char) (c : Char) :
    numeral base (cs ++ [c]) = numeral base cs * base + digitValue c := by
  rw [numeral, List.foldl_append]
  rfl

theorem numeral_toDigits (n : Nat) : numeral 10 (Nat.toDigits 10 n) = n := by
  induction n using Nat.base_induction 10 (by decide) with
  | single m hm =>
    rw [Nat.toDigits_of_lt_base hm]
    simp [numeral, digitValue_digitChar (show m < 16 by omega)]
  | digit m k hk hm ih =>
    rw [← Nat.toDigits_append_toDigits (by decide) hm hk, Nat.toDigits_of_lt_base hk,
      numeral_concat, ih, digitValue_digitChar (by omega), Nat.mul_comm]

theorem isDecimalDigit_of_mem_toDigits {n : Nat} {c : Char} (h : c ∈ Nat.toDigits 10 n) :
    isDecimalDigit c = true := by
  have hc := Nat.isDigit_of_mem_toDigits (by decide) (by decide) h
  simp only [Char.isDigit, Bool.and_eq_true, decide_eq_true_eq] at hc
  simp only [isDecimalDigit, Bool.and_eq_true, decide_eq_true_eq, Char.le_def]
  exact hc

theorem isHexDigit_of_isDecimalDigit {c : Char} (h : isDecimalDigit c = true) :
    isHexDigit c = true := by
  simp [isHexDigit, h]

theorem decimal?_toDigits (n : Nat) : decimal? (Nat.toDigits 10 n) = some n := by
  rw [decimal?, if_pos ⟨Nat.toDigits_ne_nil, List.all_eq_true.mpr fun _ =>
    isDecimalDigit_of_mem_toDigits⟩, numeral_toDigits]

/-! Decimal texts of integers. -/

theorem toList_toString (n : Int) :
    (toString n).toList =
      if n < 0 then '-' :: Nat.toDigits 10 n.natAbs else Nat.toDigits 10 n.natAbs := by
  cases n with
  | ofNat m =>
    change (Nat.repr m).toList = _
    simp
  | negSucc m =>
    change ("-" ++ Nat.repr (m + 1)).toList = _
    simp [Int.negSucc_lt_zero]

theorem splitSign_of_digits {cs : List Char} (h : ∀ c ∈ cs, isDecimalDigit c = true) :
    splitSign cs = (false, cs) := by
  unfold splitSign
  split
  · exact absurd (h '-' (by simp)) (by decide)
  · exact absurd (h '+' (by simp)) (by decide)
  · rfl

theorem integer?_of_splitSign {cs digits : List Char} {negative : Bool} {n : Nat}
    (hs : splitSign cs = (negative, digits)) (hd : decimal? digits = some n) :
    integer? cs = some (negateIf negative n) := by
  rw [integer?, hs, hd]
  rfl

theorem integer?_toString (n : Int) : integer? (toString n).toList = some n := by
  rw [toList_toString]
  by_cases hn : n < 0
  · have hs : splitSign ('-' :: Nat.toDigits 10 n.natAbs) = (true, Nat.toDigits 10 n.natAbs) := rfl
    rw [if_pos hn, integer?_of_splitSign hs (decimal?_toDigits _), negateIf, if_pos rfl]
    exact congrArg some (by omega)
  · have hs : splitSign (Nat.toDigits 10 n.natAbs) = (false, Nat.toDigits 10 n.natAbs) :=
      splitSign_of_digits fun _ => isDecimalDigit_of_mem_toDigits
    rw [if_neg hn, integer?_of_splitSign hs (decimal?_toDigits _), negateIf, if_neg nofun]
    exact congrArg some (by omega)

theorem int64?_toString (n : Int64) : int64? (toString n.toInt).toList = some n := by
  have hbounds : Int64.minValue.toInt ≤ n.toInt ∧ n.toInt ≤ Int64.maxValue.toInt :=
    ⟨n.minValue_le_toInt, n.toInt_le⟩
  rw [int64?, integer?_toString, Option.bind_some, if_pos hbounds, Int64.ofInt_toInt]

theorem trim_toString (n : Int) : trim (toString n).toList = (toString n).toList := by
  have digits : ∀ c ∈ Nat.toDigits 10 n.natAbs, isBlank c = false := fun c hc =>
    isBlank_of_isHexDigit (isHexDigit_of_isDecimalDigit (isDecimalDigit_of_mem_toDigits hc))
  apply trim_of_not_blank
  rw [toList_toString]
  split
  · intro c hc
    rcases List.mem_cons.mp hc with rfl | hc
    · decide
    · exact digits c hc
  · exact digits

/-! Code points. -/

theorem scalar?_toNat (c : Char) : scalar? c.toNat = some c := by
  have hc : c.toNat < 0xd800 ∨ (0xdfff < c.toNat ∧ c.toNat < 0x110000) := c.valid
  rw [scalar?, if_pos hc, Char.ofNat_toNat]

theorem scalar?_eq_some {n : Nat} {c : Char} : scalar? n = some c ↔ n = c.toNat := by
  constructor
  · intro h
    rw [scalar?] at h
    split at h
    · rename_i hvalid
      obtain rfl := Option.some.inj h
      rw [Char.ofNat, dif_pos hvalid]
      rfl
    · cases h
  · rintro rfl
    exact scalar?_toNat c

end ThreeAddress.Text
