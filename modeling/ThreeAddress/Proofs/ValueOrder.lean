import Mathlib.Logic.ExistsUnique
import ThreeAddress.Operation
import ThreeAddress.Result

/-! The order of values. The three relations are read off from how two values stand to each other,
which is a total order on the values of each type but the floats. Texts are compared by their bytes,
and that is the order of their code points. -/

namespace ThreeAddress

namespace Text

/-! Bytes and code points. -/

def codePoints (s : String) : List Nat := s.toList.map Char.toNat

theorem toNat_lt (c : Char) : c.toNat < 0x110000 := by
  have hvalid : c.toNat < 0xd800 ∨ (0xdfff < c.toNat ∧ c.toNat < 0x110000) := c.valid
  omega

theorem compare_ofNat {m n : Nat} (hm : m < 256) (hn : n < 256) :
    compare (UInt8.ofNat m) (UInt8.ofNat n) = compare m n := by
  have hlt : UInt8.ofNat m < UInt8.ofNat n ↔ m < n := by
    rw [UInt8.lt_iff_toNat_lt, UInt8.toNat_ofNat_of_lt' hm, UInt8.toNat_ofNat_of_lt' hn]
  have heq : UInt8.ofNat m = UInt8.ofNat n ↔ m = n := by
    rw [← UInt8.toNat_inj, UInt8.toNat_ofNat_of_lt' hm, UInt8.toNat_ofNat_of_lt' hn]
  change compareOfLessAndEq _ _ = compareOfLessAndEq _ _
  simp only [compareOfLessAndEq, hlt, heq]

/-- Numbers are compared from their first digit on, here in base 64. -/
theorem digit_lt {m n : Nat} (h : m < n) :
    m / 64 < n / 64 ∨ m / 64 = n / 64 ∧ m % 64 < n % 64 := by omega

theorem digits_lt {m n : Nat} (h : m < n) :
    m / 262144 < n / 262144 ∨ m / 262144 = n / 262144 ∧
      (m / 4096 % 64 < n / 4096 % 64 ∨ m / 4096 % 64 = n / 4096 % 64 ∧
        (m / 64 % 64 < n / 64 % 64 ∨ m / 64 % 64 = n / 64 % 64 ∧ m % 64 < n % 64)) := by
  have hsecond (k : Nat) : k / 4096 = k / 64 / 64 := (Nat.div_div_eq_div_mul k 64 64).symm
  have hfirst (k : Nat) : k / 262144 = k / 64 / 64 / 64 := by
    rw [Nat.div_div_eq_div_mul, Nat.div_div_eq_div_mul]
  simp only [hfirst, hsecond]
  rcases digit_lt h with h | ⟨hthird, hlast⟩
  · rcases digit_lt h with h | ⟨hsecond, hthird⟩
    · have hdigits := digit_lt h
      omega
    · omega
  · rw [hthird]
    omega

/-- A code point that is less has its first byte that differs less. The first byte grows with the
number of bytes, and the bytes of one number hold the digits of the code point. -/
theorem compare_utf8EncodeChar_of_lt {c d : Char} (h : c.toNat < d.toNat) (xs ys : List UInt8) :
    compare (String.utf8EncodeChar c ++ xs) (String.utf8EncodeChar d ++ ys) = .lt := by
  have hbound : d.val.toNat < 0x110000 := toNat_lt d
  have hlt : c.val.toNat < d.val.toNat := h
  have hdigits := digits_lt hlt
  rw [String.utf8EncodeChar, String.utf8EncodeChar]
  repeat' split
  all_goals
    simp (disch := omega) only [List.cons_append, List.nil_append, List.compare_cons_cons,
      Nat.mod_eq_of_lt, compare_ofNat, Ordering.then_eq_lt, Nat.compare_eq_lt, Nat.compare_eq_eq]
    omega

theorem compare_append_left (front xs ys : List UInt8) :
    compare (front ++ xs) (front ++ ys) = compare xs ys := by
  induction front with
  | nil => rfl
  | cons x front ih =>
    have hself : compare x x = .eq := Std.ReflCmp.compare_self
    rw [List.cons_append, List.cons_append, List.compare_cons_cons, hself, ih]
    rfl

theorem compare_utf8EncodeChar (c d : Char) (xs ys : List UInt8) :
    compare (String.utf8EncodeChar c ++ xs) (String.utf8EncodeChar d ++ ys) =
      (compare c.toNat d.toNat).then (compare xs ys) := by
  rcases Nat.lt_trichotomy c.toNat d.toNat with h | h | h
  · rw [compare_utf8EncodeChar_of_lt h, Nat.compare_eq_lt.mpr h]
    rfl
  · obtain rfl := Char.toNat_inj.mp h
    rw [compare_append_left, Nat.compare_eq_eq.mpr rfl]
    rfl
  · have hswap : compare (String.utf8EncodeChar c ++ xs) (String.utf8EncodeChar d ++ ys) =
        (compare (String.utf8EncodeChar d ++ ys) (String.utf8EncodeChar c ++ xs)).swap :=
      Std.OrientedCmp.eq_swap
    rw [hswap, compare_utf8EncodeChar_of_lt h, Nat.compare_eq_gt.mpr h]
    rfl

theorem compare_flatMap_utf8EncodeChar (cs ds : List Char) :
    compare (cs.flatMap String.utf8EncodeChar) (ds.flatMap String.utf8EncodeChar) =
      compare (cs.map Char.toNat) (ds.map Char.toNat) := by
  have hcons (c : Char) (cs : List Char) :
      ∃ b bs, (c :: cs).flatMap String.utf8EncodeChar = b :: bs := by
    obtain ⟨b, bs, hbytes⟩ := List.exists_cons_of_ne_nil (@String.utf8EncodeChar_ne_nil c)
    exact ⟨b, _, by rw [List.flatMap_cons, hbytes, List.cons_append]⟩
  induction cs generalizing ds with
  | nil =>
    cases ds with
    | nil => rfl
    | cons d ds =>
      obtain ⟨b, bs, hbytes⟩ := hcons d ds
      rw [hbytes]
      rfl
  | cons c cs ih =>
    cases ds with
    | nil =>
      obtain ⟨b, bs, hbytes⟩ := hcons c cs
      rw [hbytes]
      rfl
    | cons d ds =>
      rw [List.flatMap_cons, List.flatMap_cons, compare_utf8EncodeChar, ih, List.map_cons,
        List.map_cons, List.compare_cons_cons]

theorem encodeUtf8_eq (s : String) : encodeUtf8 s = s.toList.flatMap String.utf8EncodeChar := by
  rw [encodeUtf8, String.toUTF8_eq_toByteArray, ← String.utf8Encode_toList, List.utf8Encode,
    List.data_toByteArray]

theorem compare_encodeUtf8 (s t : String) :
    compare (encodeUtf8 s) (encodeUtf8 t) = compare (codePoints s) (codePoints t) := by
  rw [encodeUtf8_eq, encodeUtf8_eq, compare_flatMap_utf8EncodeChar, codePoints, codePoints]

theorem codePoints_inj {s t : String} : codePoints s = codePoints t ↔ s = t := by
  rw [codePoints, codePoints, List.map_inj_right fun c d => Char.toNat_inj.mp, String.toList_inj]

theorem compare_eq_lt_iff_lex {m n : List Nat} :
    compare m n = .lt ↔ List.Lex (· < ·) m n := by
  induction m generalizing n with
  | nil =>
    cases n with
    | nil => exact iff_of_false (by decide) (by rintro ⟨⟩)
    | cons y n => exact iff_of_true rfl .nil
  | cons x m ih =>
    cases n with
    | nil => exact iff_of_false (by rintro ⟨⟩) (by rintro ⟨⟩)
    | cons y n =>
      rw [List.compare_cons_cons, Ordering.then_eq_lt, Nat.compare_eq_lt, Nat.compare_eq_eq, ih]
      constructor
      · rintro (h | ⟨rfl, h⟩)
        · exact .rel h
        · exact .cons h
      · intro h
        cases h with
        | rel h => exact .inl h
        | cons h => exact .inr ⟨rfl, h⟩

end Text

namespace Binary64

variable {x y z : Binary64}

theorem ordering?_swap (x y : Binary64) : y.ordering? x = (x.ordering? y).map Ordering.swap := by
  rw [ordering?, ordering?, Bool.or_comm]
  split
  · rfl
  · rw [Option.map_some, Option.some_inj]
    exact Std.OrientedCmp.eq_swap

theorem ordering?_eq_some {o : Ordering} :
    x.ordering? y = some o ↔ (x.isNaN || y.isNaN) = false ∧ compare x.rank y.rank = o := by
  rw [ordering?]
  cases x.isNaN || y.isNaN <;> simp

theorem ordering?_trans (hxy : x.ordering? y = some .lt) (hyz : y.ordering? z = some .lt) :
    x.ordering? z = some .lt := by
  rw [ordering?_eq_some] at hxy hyz ⊢
  simp only [Bool.or_eq_false_iff] at hxy hyz ⊢
  exact ⟨⟨hxy.1.1, hyz.1.2⟩, Std.TransCmp.lt_trans hxy.2 hyz.2⟩

end Binary64

namespace Operation

variable {a b c : Value}

/-! How two values stand to each other. -/

theorem relate_string (s t : String) : relate (.string s) (.string t) =
    .ok (some (Ord.compare (Text.codePoints s) (Text.codePoints t))) := by
  rw [relate, Text.compare_encodeUtf8]

theorem relate_swap (a b : Value) : relate b a = (relate a b).map (Option.map Ordering.swap) := by
  cases a <;> cases b
  case float.float x y => exact congrArg Except.ok (Binary64.ordering?_swap x y)
  case int.int | bool.bool | string.string =>
    exact congrArg (fun o => Except.ok (some o)) Std.OrientedCmp.eq_swap
  all_goals rfl

theorem exists_relate_iff (a b : Value) :
    (∃ o, relate a b = .ok o) ↔ a.tag ≠ .nil ∧ a.tag = b.tag := by
  cases a <;> cases b
  case int.int | bool.bool | string.string | float.float =>
    exact iff_of_true ⟨_, rfl⟩ ⟨by rintro ⟨⟩, rfl⟩
  all_goals exact iff_of_false (by rintro ⟨o, ⟨⟩⟩) (by simp [Value.tag])

theorem relate_total (htag : a.tag = b.tag) (hnil : a.tag ≠ .nil) (hfloat : a.tag ≠ .float) :
    ∃ o, relate a b = .ok (some o) ∧ (o = .eq ↔ a = b) := by
  cases a <;> cases b <;> cases htag
  case nil.nil => exact absurd rfl hnil
  case float.float => exact absurd rfl hfloat
  case int.int x y =>
    refine ⟨_, rfl, ?_⟩
    rw [Std.LawfulEqCmp.compare_eq_iff_eq, Value.int.injEq]
  case bool.bool x y =>
    refine ⟨_, rfl, ?_⟩
    rw [Std.LawfulEqCmp.compare_eq_iff_eq, Value.bool.injEq]
  case string.string s t =>
    refine ⟨_, relate_string s t, ?_⟩
    rw [Std.LawfulEqCmp.compare_eq_iff_eq, Text.codePoints_inj, Value.string.injEq]

theorem relate_trans (hab : relate a b = .ok (some .lt)) (hbc : relate b c = .ok (some .lt)) :
    relate a c = .ok (some .lt) := by
  obtain ⟨hnil, htag⟩ := (exists_relate_iff a b).mp ⟨_, hab⟩
  obtain ⟨-, htag'⟩ := (exists_relate_iff b c).mp ⟨_, hbc⟩
  cases a <;> cases b <;> cases htag <;> cases c <;> cases htag'
  case nil.nil => exact absurd rfl hnil
  case float.float x y z =>
    exact congrArg Except.ok (Binary64.ordering?_trans (Except.ok.inj hab) (Except.ok.inj hbc))
  case int.int | bool.bool | string.string =>
    have hab := Option.some.inj (Except.ok.inj hab)
    have hbc := Option.some.inj (Except.ok.inj hbc)
    exact congrArg (fun o => Except.ok (some o)) (Std.TransCmp.lt_trans hab hbc)

/-! The relations. -/

variable {r : Relation}

def Relation.converse : Relation → Relation
  | .lt => .gt
  | .gt => .lt
  | .eq => .eq

theorem Relation.converse_eq_iff : r.converse = .eq ↔ r = .eq := by
  cases r <;> decide

theorem Relation.ordering_converse : r.converse.ordering = r.ordering.swap := by
  cases r <;> rfl

theorem Relation.existsUnique_ordering (o : Ordering) : ∃! r : Relation, r.ordering = o := by
  cases o with
  | lt => exact ⟨.lt, rfl, by rintro ⟨⟩ ⟨⟩; rfl⟩
  | eq => exact ⟨.eq, rfl, by rintro ⟨⟩ ⟨⟩; rfl⟩
  | gt => exact ⟨.gt, rfl, by rintro ⟨⟩ ⟨⟩; rfl⟩

theorem isNil_iff : a.isNil = true ↔ a = .nil := by
  cases a <;> simp [Value.isNil, Value.tag]

theorem compare_of_nil (h : a = .nil ∨ b = .nil) : compare r a b =
    if r = .eq then .ok (a.isNil && b.isNil) else .error .typeMismatch := by
  rw [compare, if_pos (h.imp isNil_iff.mpr isNil_iff.mpr)]

theorem compare_of_not_nil (h : ¬ (a = .nil ∨ b = .nil)) : compare r a b =
    (relate a b).map fun o => decide (o = some r.ordering) := by
  rw [compare, if_neg fun hnil => h (hnil.imp isNil_iff.mp isNil_iff.mp)]

theorem compare_converse (r : Relation) (a b : Value) : compare r.converse b a = compare r a b := by
  by_cases hnil : a = .nil ∨ b = .nil
  · rw [compare_of_nil hnil, compare_of_nil hnil.symm, Bool.and_comm]
    simp only [Relation.converse_eq_iff]
  · rw [compare_of_not_nil hnil, compare_of_not_nil (mt Or.symm hnil), relate_swap,
      Relation.ordering_converse]
    cases relate a b with
    | error fault => rfl
    | ok o =>
      have hswap : o.map Ordering.swap = some r.ordering.swap ↔ o = some r.ordering := by
        cases o <;> simp [Ordering.swap_inj]
      exact congrArg Except.ok (decide_eq_decide.mpr hswap)

theorem exists_compare_of_nil (h : a = .nil ∨ b = .nil) :
    (∃ v, compare r a b = .ok v) ↔ r = .eq := by
  rw [compare_of_nil h]
  split
  · rename_i hr
    exact iff_of_true ⟨_, rfl⟩ hr
  · rename_i hr
    exact iff_of_false (by rintro ⟨v, ⟨⟩⟩) hr

theorem exists_compare_of_not_nil (h : ¬ (a = .nil ∨ b = .nil)) :
    (∃ v, compare r a b = .ok v) ↔ a.tag = b.tag := by
  have htag : a.tag ≠ .nil := fun htag => h (.inl (isNil_iff.mp (beq_iff_eq.mpr htag)))
  rw [compare_of_not_nil h]
  constructor
  · rintro ⟨v, hv⟩
    obtain ⟨o, ho, -⟩ := map_eq_ok.mp hv
    exact ((exists_relate_iff a b).mp ⟨o, ho⟩).2
  · intro hsame
    obtain ⟨o, ho⟩ := (exists_relate_iff a b).mpr ⟨htag, hsame⟩
    exact ⟨_, map_eq_ok.mpr ⟨o, ho, rfl⟩⟩

theorem exists_compare_eq_iff (a b : Value) :
    (∃ v, compare .eq a b = .ok v) ↔ a = .nil ∨ b = .nil ∨ a.tag = b.tag := by
  rw [← or_assoc]
  by_cases hnil : a = .nil ∨ b = .nil
  · exact iff_of_true ((exists_compare_of_nil hnil).mpr rfl) (.inl hnil)
  · rw [exists_compare_of_not_nil hnil, or_iff_right hnil]

theorem exists_compare_lt_iff (a b : Value) :
    (∃ v, compare .lt a b = .ok v) ↔ a ≠ .nil ∧ b ≠ .nil ∧ a.tag = b.tag := by
  rw [← and_assoc, ← not_or]
  by_cases hnil : a = .nil ∨ b = .nil
  · rw [exists_compare_of_nil hnil]
    exact iff_of_false (by decide) fun h => h.1 hnil
  · rw [exists_compare_of_not_nil hnil, and_iff_right hnil]

theorem compare_eq_true (h : ¬ (a = .nil ∨ b = .nil)) :
    compare r a b = .ok true ↔ relate a b = .ok (some r.ordering) := by
  rw [compare_of_not_nil h, map_eq_ok]
  simp only [decide_eq_true_eq]
  constructor
  · rintro ⟨_, ho, rfl⟩
    exact ho
  · intro ho
    exact ⟨_, ho, rfl⟩

theorem not_nil_of_lt (h : compare .lt a b = .ok true) : ¬ (a = .nil ∨ b = .nil) := by
  obtain ⟨ha, hb, -⟩ := (exists_compare_lt_iff a b).mp ⟨true, h⟩
  exact not_or.mpr ⟨ha, hb⟩

theorem compare_trans (hab : compare .lt a b = .ok true) (hbc : compare .lt b c = .ok true) :
    compare .lt a c = .ok true := by
  have hab' := not_nil_of_lt hab
  have hbc' := not_nil_of_lt hbc
  have hac : ¬ (a = .nil ∨ c = .nil) :=
    not_or.mpr ⟨fun ha => hab' (.inl ha), fun hc => hbc' (.inr hc)⟩
  rw [compare_eq_true hab'] at hab
  rw [compare_eq_true hbc'] at hbc
  exact (compare_eq_true hac).mpr (relate_trans hab hbc)

theorem compare_total (htag : a.tag = b.tag) (hnil : a.tag ≠ .nil) (hfloat : a.tag ≠ .float) :
    (∃! r, compare r a b = .ok true) ∧ (compare .eq a b = .ok true ↔ a = b) := by
  have hnot : ¬ (a = .nil ∨ b = .nil) := by
    rintro (rfl | rfl)
    · exact hnil rfl
    · exact hnil htag
  obtain ⟨o, ho, heq⟩ := relate_total htag hnil hfloat
  have hread (r : Relation) : compare r a b = .ok true ↔ r.ordering = o := by
    rw [compare_eq_true hnot, ho, Except.ok.injEq, Option.some_inj, eq_comm]
  refine ⟨?_, ?_⟩
  · simp only [hread]
    exact Relation.existsUnique_ordering o
  · rw [hread, ← heq, eq_comm]
    rfl

theorem compare_string_lt (s t : String) : compare .lt (.string s) (.string t) = .ok true ↔
    List.Lex (· < ·) (Text.codePoints s) (Text.codePoints t) := by
  rw [compare_eq_true (by simp), relate_string, ← Text.compare_eq_lt_iff_lex,
    Except.ok.injEq, Option.some_inj]
  rfl

/-- The relations form an order. Less is greater with the values exchanged, and equality does not
change when they are, faults included. Equality can be asked of nil with any value and of two values
of one type, less only of two values of one type that is not nil. Of two values of one type, if they
are not nil and not floats, exactly one relation holds, and it is equality only if they are the same
value. Less is transitive, and on texts it is the order of their code points. -/
theorem relations_order_values :
    (∀ a b, compare .lt a b = compare .gt b a ∧ compare .eq a b = compare .eq b a) ∧
    (∀ a b, ((∃ v, compare .eq a b = .ok v) ↔ a = .nil ∨ b = .nil ∨ a.tag = b.tag) ∧
      ((∃ v, compare .lt a b = .ok v) ↔ a ≠ .nil ∧ b ≠ .nil ∧ a.tag = b.tag)) ∧
    (∀ a b : Value, a.tag = b.tag → a.tag ≠ .nil → a.tag ≠ .float →
      (∃! r, compare r a b = .ok true) ∧ (compare .eq a b = .ok true ↔ a = b)) ∧
    (∀ a b c, compare .lt a b = .ok true → compare .lt b c = .ok true →
      compare .lt a c = .ok true) ∧
    ∀ s t : String, compare .lt (.string s) (.string t) = .ok true ↔
      List.Lex (· < ·) (Text.codePoints s) (Text.codePoints t) := by
  refine ⟨fun a b => ⟨?_, ?_⟩, fun a b => ⟨?_, ?_⟩, fun a b => compare_total,
    fun a b c => compare_trans, compare_string_lt⟩
  · exact compare_converse .gt b a
  · exact compare_converse .eq b a
  · exact exists_compare_eq_iff a b
  · exact exists_compare_lt_iff a b

/-- Texts whose characters take one, three, four and two bytes. As UTF-16 the first two would stand
the other way round. -/
theorem wide_texts_ordered :
    (Value.string "z\ufffd").tag = (Value.string "é").tag ∧
      (Value.string "z\ufffd").tag ≠ .nil ∧ (Value.string "z\ufffd").tag ≠ .float ∧
      compare .lt (.string "z\ufffd") (.string "z😀") = .ok true ∧
      compare .lt (.string "z😀") (.string "é") = .ok true ∧
      compare .gt (.string "é") (.string "z\ufffd") = .ok true ∧
      ∃! r, compare r (.string "z\ufffd") (.string "é") = .ok true := by
  obtain ⟨hconverse, -, htotal, htrans, htexts⟩ := relations_order_values
  have hnil : (Value.string "z\ufffd").tag ≠ .nil := by decide
  have hfloat : (Value.string "z\ufffd").tag ≠ .float := by decide
  have hfirst := (htexts "z\ufffd" "z😀").mpr (.cons (.rel (by decide)))
  have hsecond := (htexts "z😀" "é").mpr (.rel (by decide))
  have hone := (htotal (.string "z\ufffd") (.string "é") rfl hnil hfloat).1
  refine ⟨rfl, hnil, hfloat, hfirst, hsecond, ?_, hone⟩
  rw [← (hconverse _ _).1]
  exact htrans _ _ _ hfirst hsecond

end Operation

end ThreeAddress
