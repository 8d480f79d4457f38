import Mathlib.Algebra.Group.Nat.Defs
import ThreeAddress.Operation
import ThreeAddress.Proofs.Numerals
import ThreeAddress.Result

/-! Indices of characters. Reading a character, reading its ordinal and replacing it find the place
of an index in two different ways; they mean the same place by it and refuse the same indices. What
is written to a place is read there, and nothing else changes. -/

namespace ThreeAddress.Operation

/-- The index means a character of the text; counting begins at zero. -/
def InRange (s : String) (index : Int64) : Prop :=
  0 ≤ index.toInt ∧ index.toInt < s.toList.length

instance decidableInRange (s : String) (index : Int64) : Decidable (InRange s index) :=
  inferInstanceAs (Decidable (_ ∧ _))

/-- What comes of an operation at an index of a text: a result if the index means a character, and
otherwise the fault that tells the index and the length. -/
structure IndexedBy (s : String) (index : Int64) (result : Except Fault Value) : Prop where
  succeeds : (∃ v, result = .ok v) ↔ InRange s index
  refused : ¬ InRange s index → result = .error (.indexOutOfRange index s.toList.length)

/-- The text with the first character of another text at an index. -/
structure ReplacedAt (s : String) (index : Int64) (replacement t : String) : Prop where
  length_eq : length (.string t) = length (.string s)
  here : ∃ c, replacement.toList.head? = some c ∧
    getChar (.string t) (.int index) = .ok (.string (String.singleton c))
  elsewhere : ∀ other, other ≠ index →
    getChar (.string t) (.int other) = getChar (.string s) (.int other)

def IsScalarValue (n : Int) : Prop := (0 ≤ n ∧ n < 0xd800) ∨ (0xdfff < n ∧ n < 0x110000)

/-- One text behind the other, character by character. It says which indices succeed and with what,
and nothing of the faults: these tell the length of the text that was indexed, which is not that of
a part. -/
structure Joined (s t u : String) : Prop where
  count : u.toList.length = s.toList.length + t.toList.length
  total : ∃ m n, length (.string s) = .ok (.int m) ∧ length (.string t) = .ok (.int n) ∧
    length (.string u) = .ok (.int (m + n))
  front : ∀ index : Int64, index.toInt < s.toList.length → ∀ v,
    getChar (.string u) (.int index) = .ok v ↔ getChar (.string s) (.int index) = .ok v
  back : ∀ index : Int64, s.toList.length ≤ index.toInt → ∀ v,
    getChar (.string u) (.int index) = .ok v ↔
      getChar (.string t) (.int (index - Int64.ofNat s.toList.length)) = .ok v

/-! The two ways to a place. -/

variable {s t : String} {index : Int64}

theorem nonneg_iff : 0 ≤ index ↔ 0 ≤ index.toInt := Int64.le_iff_toInt_le

theorem charAt_eq_ok {c : Char} :
    charAt s index = .ok c ↔ 0 ≤ index.toInt ∧ s.toList[index.toInt.toNat]? = some c := by
  unfold charAt
  by_cases hpos : 0 ≤ index.toInt
  · rw [if_pos (nonneg_iff.mpr hpos)]
    cases s.toList[index.toInt.toNat]? <;> simp [hpos]
  · rw [if_neg (mt nonneg_iff.mp hpos)]
    simp [hpos]

theorem exists_charAt_iff : (∃ c, charAt s index = .ok c) ↔ InRange s index := by
  simp only [charAt_eq_ok]
  constructor
  · rintro ⟨c, hpos, hc⟩
    have hlt := (List.getElem?_eq_some_iff.mp hc).1
    exact ⟨hpos, by omega⟩
  · rintro ⟨hpos, hlt⟩
    have hlt : index.toInt.toNat < s.toList.length := by omega
    exact ⟨_, hpos, List.getElem?_eq_getElem hlt⟩

theorem charAt_eq_error {fault : Fault} (h : charAt s index = .error fault) :
    fault = .indexOutOfRange index s.toList.length := by
  unfold charAt at h
  split at h
  · cases h
  · exact (Except.error.inj h).symm

theorem charAt_congr (hlength : t.toList.length = s.toList.length)
    (h : 0 ≤ index.toInt → t.toList[index.toInt.toNat]? = s.toList[index.toInt.toNat]?) :
    charAt t index = charAt s index := by
  unfold charAt
  rw [hlength]
  by_cases hpos : 0 ≤ index.toInt
  · rw [h hpos]
  · simp only [if_neg (mt nonneg_iff.mp hpos)]

theorem position_of_inRange (h : InRange s index) :
    position s.toList index = .ok index.toInt.toNat := if_pos h

theorem position_of_not_inRange (h : ¬ InRange s index) :
    position s.toList index = .error (.indexOutOfRange index s.toList.length) := if_neg h

theorem indexedBy_map_charAt (f : Char → Value) : IndexedBy s index ((charAt s index).map f) := by
  cases h : charAt s index with
  | ok c =>
    have hin : InRange s index := exists_charAt_iff.mp ⟨c, h⟩
    exact ⟨iff_of_true ⟨f c, rfl⟩ hin, fun hout => absurd hin hout⟩
  | error fault =>
    obtain rfl := charAt_eq_error h
    have hout : ¬ InRange s index := by
      intro hin
      obtain ⟨c, hc⟩ := exists_charAt_iff.mpr hin
      rw [h] at hc
      nomatch hc
    exact ⟨iff_of_false (by rintro ⟨v, hv⟩; nomatch hv) hout, fun _ => rfl⟩

theorem getChar_eq_ok {v : Value} : getChar (.string s) (.int index) = .ok v ↔
    ∃ c, charAt s index = .ok c ∧ .string (String.singleton c) = v := map_eq_ok

/-! Replacing a character. -/

theorem setChar_empty : setChar (.string s) (.int index) (.string "") = .error .emptyReplacement :=
  rfl

theorem setChar_of_cons {r : String} {c : Char} {cs : List Char} (hr : r.toList = c :: cs) :
    setChar (.string s) (.int index) (.string r) = (position s.toList index).map fun i =>
      .string (String.ofList (s.toList.set i c)) := by
  simp only [setChar, hr]

theorem indexedBy_setChar {r : String} (hr : r ≠ "") :
    IndexedBy s index (setChar (.string s) (.int index) (.string r)) := by
  obtain ⟨c, cs, hcons⟩ := List.exists_cons_of_ne_nil (mt String.toList_eq_nil_iff.mp hr)
  rw [setChar_of_cons hcons]
  by_cases hin : InRange s index
  · rw [position_of_inRange hin]
    exact ⟨iff_of_true ⟨_, rfl⟩ hin, fun hout => absurd hin hout⟩
  · rw [position_of_not_inRange hin]
    exact ⟨iff_of_false (by rintro ⟨v, hv⟩; nomatch hv) hin, fun _ => rfl⟩

theorem replacedAt_set {r : String} {c : Char} (hr : r.toList.head? = some c)
    (hin : InRange s index) (ht : t.toList = s.toList.set index.toInt.toNat c) :
    ReplacedAt s index r t := by
  obtain ⟨hpos, hlt⟩ := hin
  have hlength : t.toList.length = s.toList.length := by rw [ht, List.length_set]
  refine ⟨by simp only [length, hlength], ⟨c, hr, ?_⟩, ?_⟩
  · refine getChar_eq_ok.mpr ⟨c, charAt_eq_ok.mpr ⟨hpos, ?_⟩, rfl⟩
    rw [ht]
    exact List.getElem?_set_self (by omega)
  · intro other hne
    have hsame : charAt t other = charAt s other := by
      refine charAt_congr hlength fun hother => ?_
      have hplace : index.toInt.toNat ≠ other.toInt.toNat := by
        intro heq
        exact hne (Int64.toInt_inj.mp (by omega))
      rw [ht, List.getElem?_set_ne hplace]
    simp only [getChar, hsame]

theorem replacedAt_of_setChar {r : String} {v : Value}
    (h : setChar (.string s) (.int index) (.string r) = .ok v) :
    ∃ t, v = .string t ∧ ReplacedAt s index r t := by
  cases hr : r.toList with
  | nil =>
    rw [String.toList_eq_nil_iff.mp hr, setChar_empty] at h
    nomatch h
  | cons c cs =>
    rw [setChar_of_cons hr] at h
    obtain ⟨i, hi, rfl⟩ := map_eq_ok.mp h
    by_cases hin : InRange s index
    · rw [position_of_inRange hin] at hi
      obtain rfl := Except.ok.inj hi
      exact ⟨_, rfl, replacedAt_set (by rw [hr]; rfl) hin String.toList_ofList⟩
    · rw [position_of_not_inRange hin] at hi
      nomatch hi

/-! Ordinals. -/

theorem toInt_ofNat_toNat (c : Char) : (Int64.ofNat c.toNat).toInt = c.toNat := by
  have hlt : c.toNat < 0x110000 := by
    have hvalid : c.toNat < 0xd800 ∨ (0xdfff < c.toNat ∧ c.toNat < 0x110000) := c.valid
    omega
  exact Int64.toInt_ofNat_of_lt (by omega)

theorem intToChar_eq_ok {n : Int64} {v : Value} :
    intToChar (.int n) = .ok v ↔
      ∃ c : Char, n.toInt = c.toNat ∧ v = .string (String.singleton c) := by
  rw [intToChar]
  by_cases hpos : 0 ≤ n.toInt
  · rw [if_pos (nonneg_iff.mpr hpos)]
    cases hc : Text.scalar? n.toInt.toNat with
    | some c =>
      have hn : n.toInt = c.toNat := by
        have := Text.scalar?_eq_some.mp hc
        omega
      constructor
      · intro h
        exact ⟨c, hn, (Except.ok.inj h).symm⟩
      · rintro ⟨d, hd, rfl⟩
        obtain rfl : c = d := Char.toNat_inj.mp (by omega)
        rfl
    | none =>
      constructor
      · nofun
      · rintro ⟨d, hd, -⟩
        rw [hd, Int.toNat_natCast, Text.scalar?_toNat] at hc
        nomatch hc
  · rw [if_neg (mt nonneg_iff.mp hpos)]
    constructor
    · nofun
    · rintro ⟨d, hd, -⟩
      omega

theorem exists_char_iff {n : Int} : (∃ c : Char, n = c.toNat) ↔ IsScalarValue n := by
  constructor
  · rintro ⟨c, rfl⟩
    have hvalid : c.toNat < 0xd800 ∨ (0xdfff < c.toNat ∧ c.toNat < 0x110000) := c.valid
    unfold IsScalarValue
    omega
  · intro h
    unfold IsScalarValue at h
    have hscalar : Text.scalar? n.toNat = some (Char.ofNat n.toNat) := if_pos (by omega)
    have hn := Text.scalar?_eq_some.mp hscalar
    exact ⟨Char.ofNat n.toNat, by omega⟩

theorem exists_intToChar_iff (n : Int64) :
    (∃ v, intToChar (.int n) = .ok v) ↔ IsScalarValue n.toInt := by
  rw [← exists_char_iff]
  simp only [intToChar_eq_ok]
  constructor
  · rintro ⟨v, c, hc, -⟩
    exact ⟨c, hc⟩
  · rintro ⟨c, hc⟩
    exact ⟨_, c, hc, rfl⟩

theorem ordinalAt_intToChar {n : Int64} {v : Value} (h : intToChar (.int n) = .ok v) :
    ordinalAt v (.int 0) = .ok (.int n) := by
  obtain ⟨c, hc, rfl⟩ := intToChar_eq_ok.mp h
  have hchar : charAt (String.singleton c) 0 = .ok c :=
    charAt_eq_ok.mpr ⟨Int.le_refl 0, by rw [String.toList_singleton]; rfl⟩
  have hn : Int64.ofNat c.toNat = n := Int64.toInt_inj.mp ((toInt_ofNat_toNat c).trans hc.symm)
  rw [ordinalAt, hchar, ← hn]
  rfl

theorem intToChar_ordinalAt {v : Value} (h : ordinalAt (.string s) (.int index) = .ok v) :
    intToChar v = getChar (.string s) (.int index) := by
  obtain ⟨c, hc, rfl⟩ := map_eq_ok.mp h
  rw [getChar, hc]
  exact intToChar_eq_ok.mpr ⟨c, toInt_ofNat_toNat c, rfl⟩

/-! Texts behind each other. -/

theorem toInt_sub_length (h : s.toList.length ≤ index.toInt) :
    (index - Int64.ofNat s.toList.length).toInt = index.toInt - s.toList.length := by
  have hlt := index.toInt_lt
  rw [Int64.toInt_sub, Int64.toInt_ofNat_of_lt (by omega)]
  exact Int.bmod_eq_of_le (by omega) (by omega)

theorem joined_append (s t : String) : Joined s t (s ++ t) where
  count := by rw [String.toList_append, List.length_append]
  total := by
    refine ⟨_, _, rfl, rfl, ?_⟩
    simp only [length, String.toList_append, List.length_append, Int64.ofNat_add]
  front index h v := by
    have hfront (c : Char) : charAt (s ++ t) index = .ok c ↔ charAt s index = .ok c := by
      rw [charAt_eq_ok, charAt_eq_ok]
      refine and_congr_right fun hpos => ?_
      rw [String.toList_append, List.getElem?_append_left (by omega)]
    simp only [getChar_eq_ok, hfront]
  back index h v := by
    have hback (c : Char) : charAt (s ++ t) index = .ok c ↔
        charAt t (index - Int64.ofNat s.toList.length) = .ok c := by
      rw [charAt_eq_ok, charAt_eq_ok, toInt_sub_length h, String.toList_append,
        List.getElem?_append_right (by omega)]
      have hplace : (index.toInt - s.toList.length).toNat =
          index.toInt.toNat - s.toList.length := by omega
      rw [hplace]
      exact and_congr_left fun _ => by omega
    simp only [getChar_eq_ok, hback]

/-- Characters of a text are read, replaced and counted alike, ordinals and characters stand for
each other, and in a joined text each part keeps its characters. The length is told as an integer,
which is the count of the characters unless that is too large for one. -/
theorem strings_indexed_alike (s : String) :
    (∃ n, length (.string s) = .ok (.int n) ∧
      (s.toList.length < 2 ^ 63 → n.toInt = s.toList.length)) ∧
    (∀ index : Int64,
      IndexedBy s index (getChar (.string s) (.int index)) ∧
      IndexedBy s index (ordinalAt (.string s) (.int index)) ∧
      (∀ r, r ≠ "" → IndexedBy s index (setChar (.string s) (.int index) (.string r))) ∧
      setChar (.string s) (.int index) (.string "") = .error .emptyReplacement ∧
      (∀ r v, setChar (.string s) (.int index) (.string r) = .ok v →
        ∃ t, v = .string t ∧ ReplacedAt s index r t) ∧
      ∀ v, ordinalAt (.string s) (.int index) = .ok v →
        intToChar v = getChar (.string s) (.int index)) ∧
    (∀ n : Int64, ((∃ v, intToChar (.int n) = .ok v) ↔ IsScalarValue n.toInt) ∧
      ∀ v, intToChar (.int n) = .ok v → ordinalAt v (.int 0) = .ok (.int n)) ∧
    ∀ t, ∃ u, concat (.string s) (.string t) = .ok (.string u) ∧ Joined s t u := by
  refine ⟨⟨_, rfl, Int64.toInt_ofNat_of_lt⟩, fun index => ?_, fun n => ?_, fun t => ?_⟩
  · refine ⟨indexedBy_map_charAt _, indexedBy_map_charAt _, fun r => indexedBy_setChar,
      setChar_empty, fun r v => replacedAt_of_setChar, fun v => intToChar_ordinalAt⟩
  · exact ⟨exists_intToChar_iff n, fun v => ordinalAt_intToChar⟩
  · exact ⟨s ++ t, rfl, joined_append s t⟩

/-- A text whose characters take one, two and four bytes: the last one is replaced, and the index
behind it is refused. -/
theorem strings_indexed_alike_wide :
    "xy" ≠ "" ∧ ¬ InRange "aé😀" 3 ∧
      setChar (.string "aé😀") (.int 3) (.string "xy") = .error (.indexOutOfRange 3 3) ∧
      ∃ t, setChar (.string "aé😀") (.int 2) (.string "xy") = .ok (.string t) ∧
        getChar (.string t) (.int 1) = .ok (.string "é") := by
  obtain ⟨-, hindexed, -⟩ := strings_indexed_alike "aé😀"
  have hne : "xy" ≠ "" := by decide
  have hout : ¬ InRange "aé😀" 3 := by decide
  obtain ⟨-, -, hset, -⟩ := hindexed 3
  obtain ⟨-, -, -, -, hreplaced, -⟩ := hindexed 2
  have hok : setChar (.string "aé😀") (.int 2) (.string "xy") = .ok (.string "aéx") := by decide
  obtain ⟨t, ht, hat⟩ := hreplaced _ _ hok
  refine ⟨hne, hout, (hset "xy" hne).refused hout, t, ht ▸ hok, ?_⟩
  exact (hat.elsewhere 1 (by decide)).trans (by decide)

end ThreeAddress.Operation
