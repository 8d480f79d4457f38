import ThreeAddress.Program
import ThreeAddress.Result

/-! Programs as they come about: from the empty one, by adding instructions. Their instructions
stand in ascending order, so that the search for the next one finds the nearest. What a program
answers depends on the instructions in it only, not on the sequence in which they were added. -/

namespace ThreeAddress

namespace Table

variable {κ α : Type}

def Ascending [LT κ] (t : Table κ α) : Prop := t.entries.Pairwise fun d e => d.1 < e.1

theorem perm_insertEntry [LT κ] [DecidableLT κ] (k : κ) (a : α) (entries : List (κ × α)) :
    (insertEntry k a entries).Perm ((k, a) :: entries) := by
  induction entries with
  | nil => exact .refl _
  | cons e entries ih =>
    rw [insertEntry]
    split
    · exact .refl _
    · exact (ih.cons e).trans (.swap (k, a) e entries)

theorem mem_insertEntry [LT κ] [DecidableLT κ] {k : κ} {a : α} {e : κ × α}
    {entries : List (κ × α)} : e ∈ insertEntry k a entries ↔ e = (k, a) ∨ e ∈ entries :=
  (perm_insertEntry k a entries).mem_iff.trans List.mem_cons

theorem ne_of_not_contains [DecidableEq κ] {t : Table κ α} {k : κ} (h : t.contains k = false)
    {e : κ × α} (he : e ∈ t.entries) : e.1 ≠ k := by
  have hn : t.entries.lookup k = none := by simpa [contains, get?] using h
  intro hk
  simpa [hk] using List.lookup_eq_none_iff.mp hn e he

theorem contains_iff [DecidableEq κ] {t : Table κ α} {k : κ} :
    t.contains k = true ↔ ∃ e ∈ t.entries, e.1 = k := by
  rw [contains, get?, List.lookup_isSome_iff]
  constructor
  · rintro ⟨e, he, hk⟩
    exact ⟨e, he, (beq_iff_eq.mp hk).symm⟩
  · rintro ⟨e, he, rfl⟩
    exact ⟨e, he, beq_self_eq_true _⟩

theorem lookup_cons_if [DecidableEq κ] (e : κ × α) (entries : List (κ × α)) (k : κ) :
    (e :: entries).lookup k = if k = e.1 then some e.2 else entries.lookup k := by
  obtain ⟨key, a⟩ := e
  by_cases h : k = key
  · simp [h]
  · simp [List.lookup_cons, beq_eq_false_iff_ne.mpr h, h]

theorem lookup_insertEntry [DecidableEq κ] [LT κ] [DecidableLT κ] {k : κ}
    {entries : List (κ × α)} (hk : ∀ e ∈ entries, e.1 ≠ k) (a : α) (k' : κ) :
    (insertEntry k a entries).lookup k' = if k' = k then some a else entries.lookup k' := by
  induction entries with
  | nil => exact lookup_cons_if (k, a) [] k'
  | cons e entries ih =>
    rw [insertEntry]
    split
    · exact lookup_cons_if (k, a) (e :: entries) k'
    · rw [lookup_cons_if, lookup_cons_if, ih fun d hd => hk d (by simp [hd])]
      by_cases h : k' = k
      · subst h
        simp [(hk e (by simp)).symm]
      · simp [h]

theorem get?_insert [DecidableEq κ] [LT κ] [DecidableLT κ] {t : Table κ α} {k : κ}
    (hk : t.contains k = false) (a : α) (k' : κ) :
    (t.insert k a).get? k' = if k' = k then some a else t.get? k' :=
  lookup_insertEntry (fun _ he => ne_of_not_contains hk he) a k'

theorem Ascending.eq_of_key_eq [LE κ] [LT κ] [Std.LawfulOrderLT κ] {t : Table κ α}
    (h : t.Ascending) {d e : κ × α} (hd : d ∈ t.entries) (he : e ∈ t.entries) (hk : d.1 = e.1) :
    d = e := by
  obtain ⟨m, hm, rfl⟩ := List.mem_iff_getElem.mp hd
  obtain ⟨n, hn, rfl⟩ := List.mem_iff_getElem.mp he
  have hlt := List.pairwise_iff_getElem.mp h
  rcases Nat.lt_trichotomy m n with hmn | rfl | hmn
  · exact absurd hk (Std.ne_of_lt (hlt m n hm hn hmn))
  · rfl
  · exact absurd hk.symm (Std.ne_of_lt (hlt n m hn hm hmn))

theorem Ascending.get?_eq_some [DecidableEq κ] [LE κ] [LT κ] [Std.LawfulOrderLT κ]
    {t : Table κ α} (h : t.Ascending) {k : κ} {a : α} :
    t.get? k = some a ↔ (k, a) ∈ t.entries := by
  constructor
  · intro hk
    obtain ⟨before, after, hsplit, -⟩ := List.lookup_eq_some_iff.mp hk
    simp [hsplit]
  · intro hmem
    obtain ⟨b, hb⟩ := Option.isSome_iff_exists.mp (contains_iff.mpr ⟨_, hmem, rfl⟩)
    obtain ⟨before, after, hsplit, -⟩ := List.lookup_eq_some_iff.mp hb
    have hsame := h.eq_of_key_eq hmem (show (k, b) ∈ t.entries by simp [hsplit]) rfl
    rw [hb, (Prod.mk.inj hsame).2]

variable [LE κ] [LT κ] [DecidableLT κ] [Std.IsLinearOrder κ] [Std.LawfulOrderLT κ]

theorem pairwise_insertEntry {k : κ} {a : α} {entries : List (κ × α)}
    (h : entries.Pairwise fun d e => d.1 < e.1) (hk : ∀ e ∈ entries, e.1 ≠ k) :
    (insertEntry k a entries).Pairwise fun d e => d.1 < e.1 := by
  induction entries with
  | nil => simp [insertEntry]
  | cons d entries ih =>
    obtain ⟨hd, hrest⟩ := List.pairwise_cons.mp h
    rw [insertEntry]
    split
    · rename_i hlt
      refine List.pairwise_cons.mpr ⟨?_, h⟩
      intro e he
      rcases List.mem_cons.mp he with rfl | he
      · exact hlt
      · exact Std.lt_trans hlt (hd e he)
    · rename_i hlt
      refine List.pairwise_cons.mpr ⟨?_, ih hrest fun e he => hk e (by simp [he])⟩
      intro e he
      rcases mem_insertEntry.mp he with rfl | he
      · exact Std.lt_of_le_of_ne (Std.not_lt.mp hlt) (hk d (by simp))
      · exact hd e he

theorem ascending_insert [DecidableEq κ] {t : Table κ α} {k : κ} {a : α} (h : t.Ascending)
    (hk : t.contains k = false) : (t.insert k a).Ascending :=
  pairwise_insertEntry h fun _ he => ne_of_not_contains hk he

theorem above?_eq_some {t : Table κ α} (h : t.Ascending) {k : κ} {a : α}
    (ha : t.above? k = some a) :
    ∃ e ∈ t.entries, e.2 = a ∧ k < e.1 ∧ ∀ d ∈ t.entries, k < d.1 → e.1 ≤ d.1 := by
  obtain ⟨e, he, rfl⟩ := Option.map_eq_some_iff.mp ha
  obtain ⟨hk, before, after, hsplit, hbefore⟩ := List.find?_eq_some_iff_append.mp he
  refine ⟨e, by simp [hsplit], rfl, by simpa using hk, ?_⟩
  intro d hd hkd
  rw [Ascending, hsplit] at h
  rw [hsplit, List.mem_append, List.mem_cons] at hd
  rcases hd with hd | rfl | hd
  · exact absurd hkd (by simpa using hbefore d hd)
  · exact Std.le_refl _
  · exact Std.le_of_lt ((List.pairwise_cons.mp (List.pairwise_append.mp h).2.1).1 d hd)

end Table

namespace Instruction

def declaration? (i : Instruction) : Option (String × Order) :=
  i.declaredLabel?.map fun name => (name, i.order)

def Declares (i : Instruction) (name : String) : Prop :=
  i.opcode = .label ∧ i.get? 1 = some (.label name)

theorem declaredLabel?_eq_some {i : Instruction} {name : String} :
    i.declaredLabel? = some name ↔ i.Declares name := by
  rw [declaredLabel?, Declares, get?]
  constructor
  · intro h
    split at h
    · rename_i hop harg
      rw [hop, harg, Option.some.inj h]
      exact ⟨rfl, rfl⟩
    · nomatch h
  · rintro ⟨hop, harg⟩
    rw [hop, harg]

theorem Declares.unique {i : Instruction} {m n : String} (hm : i.Declares m) (hn : i.Declares n) :
    m = n := by
  have h := hm.2.symm.trans hn.2
  rwa [Option.some.injEq, Operand.label.injEq] at h

theorem declaredLabel?_eq_none {i : Instruction} (h : i.opcode ≠ .label) :
    i.declaredLabel? = none := by
  unfold declaredLabel?
  split
  · rename_i hop _
    exact absurd hop h
  · rfl

end Instruction

namespace Program

inductive Reachable : Program → Prop where
  | empty : Reachable .empty
  | add {p q : Program} {i : Instruction} : Reachable p → p.add i = .ok q → Reachable q

structure WellFormed (p : Program) : Prop where
  ascending : p.instructions.Ascending
  keyed : ∀ e ∈ p.instructions.entries, e.1 = e.2.order
  bounded : ∀ e ∈ p.instructions.entries, e.1 ≤ p.maxOrder

/-- A label table before and after the label of an instruction is entered: there is none to enter,
or it is new. -/
def Enters (i : Instruction) (labels labels' : Table String Order) : Prop :=
  (i.opcode ≠ .label ∧ labels' = labels) ∨
    ∃ name, i.declaredLabel? = some name ∧ labels.contains name = false ∧
      labels' = labels.insert name i.order

theorem declareLabel_eq_ok {p : Program} {i : Instruction} {labels : Table String Order} :
    p.declareLabel i = (.ok (), { p with labels := labels }) ↔ Enters i p.labels labels := by
  obtain ⟨instructions, entered, maxOrder⟩ := p
  rw [declareLabel, Enters]
  by_cases hop : i.opcode = .label
  · rw [if_pos hop]
    cases hname : i.declaredLabel? with
    | none => simp [hop]
    | some name =>
      cases hnew : entered.contains name with
      | true => simp [hop, hnew]
      | false => simp [hop, hnew, eq_comm (b := labels)]
  · simp [hop, Instruction.declaredLabel?_eq_none hop, eq_comm (b := labels)]

theorem declareLabel_cases (p : Program) (i : Instruction) :
    (∃ labels, p.declareLabel i = (.ok (), { p with labels := labels })) ∨
      ∃ e, p.declareLabel i = (.error e, p) := by
  unfold declareLabel
  split
  · split
    · exact .inr ⟨_, rfl⟩
    · split
      · exact .inr ⟨_, rfl⟩
      · exact .inl ⟨_, rfl⟩
  · exact .inl ⟨p.labels, rfl⟩

theorem attempt_eq_error {p q : Program} {i : Instruction} {e : Error}
    (h : p.attempt i = (.error e, q)) : q = p := by
  unfold attempt at h
  split at h
  · exact (congrArg Prod.snd h).symm
  split at h
  · exact (congrArg Prod.snd h).symm
  split at h
  · exact (congrArg Prod.snd h).symm
  rcases declareLabel_cases p i with ⟨labels, hlabels⟩ | ⟨e, hlabels⟩
  · rw [hlabels] at h
    nomatch h
  · rw [hlabels] at h
    exact (congrArg Prod.snd h).symm

/-- All that adding an instruction does when it succeeds, and when it does. -/
theorem add_eq_ok {p q : Program} {i : Instruction} :
    p.add i = .ok q ↔
      0 < i.order ∧ p.instructions.contains i.order = false ∧ i.gap? = none ∧
        ∃ labels, Enters i p.labels labels ∧
          q = ⟨p.instructions.insert i.order i, labels, max p.maxOrder i.order⟩ := by
  simp only [add, attempt, ← declareLabel_eq_ok]
  by_cases horder : 0 < i.order
  · rw [if_neg (Std.not_le.mpr horder)]
    cases hfree : p.instructions.contains i.order with
    | true => simp
    | false =>
      cases hgap : i.gap? with
      | some gap => simp
      | none =>
        rcases declareLabel_cases p i with ⟨labels, hlabels⟩ | ⟨e, hlabels⟩
        · simp [horder, hlabels, eq_comm (b := q)]
        · simp [hlabels]
  · simp [Std.not_lt.mp horder, horder]

theorem empty_wellFormed : WellFormed .empty := by
  constructor <;> simp [Program.empty, Table.empty, Table.Ascending]

instance : Std.LawfulOrderLeftLeaningMax Order where
  max_eq_left a b h := by
    change (if a ≤ b then b else a) = a
    by_cases hab : a ≤ b
    · rw [if_pos hab]
      exact Std.le_antisymm h hab
    · exact if_neg hab
  max_eq_right a b h := if_pos (Std.le_of_not_ge h)

theorem add_wellFormed {p q : Program} {i : Instruction} (hp : p.WellFormed)
    (h : p.add i = .ok q) : q.WellFormed := by
  obtain ⟨-, hc, -, labels, -, rfl⟩ := add_eq_ok.mp h
  refine ⟨Table.ascending_insert hp.ascending hc, ?_, ?_⟩
  · intro e he
    rcases Table.mem_insertEntry.mp he with rfl | he
    · rfl
    · exact hp.keyed e he
  · intro e he
    rcases Table.mem_insertEntry.mp he with rfl | he
    · exact Std.right_le_max
    · exact Std.le_trans (hp.bounded e he) Std.left_le_max

theorem reachable_wellFormed {p : Program} (h : p.Reachable) : p.WellFormed := by
  induction h with
  | empty => exact empty_wellFormed
  | add _ h ih => exact add_wellFormed ih h

theorem reachable_addAll {p q : Program} (hp : p.Reachable) {is : List Instruction}
    (h : p.addAll is = .ok q) : q.Reachable := by
  induction is generalizing p with
  | nil =>
    injection h with h
    exact h ▸ hp
  | cons i is ih =>
    rw [addAll, List.foldlM_cons] at h
    obtain ⟨r, hr, h⟩ := bind_eq_ok.mp h
    exact ih (.add hp hr) h

theorem reachable_ofInstructions {p : Program} {is : List Instruction}
    (h : ofInstructions is = .ok p) : p.Reachable := reachable_addAll .empty h

/-- `i` is the instruction of the program with the least order above the given one. -/
structure IsNext (p : Program) (order : Order) (i : Instruction) : Prop where
  stored : i ∈ p.toList
  above : order < i.order
  least : ∀ j ∈ p.toList, order < j.order → i.order ≤ j.order

/-- Where a machine can be: at the start, or at an instruction. -/
def IsPlace (p : Program) (place : Order) : Prop :=
  place = 0 ∨ ∃ i ∈ p.toList, i.order = place

theorem isNext_of_after? {p : Program} (hp : p.WellFormed) {order : Order} {i : Instruction}
    (h : p.after? order = some i) : p.IsNext order i := by
  unfold after? at h
  split at h
  · nomatch h
  obtain ⟨e, he, rfl, hlt, hleast⟩ := Table.above?_eq_some hp.ascending h
  rw [hp.keyed e he] at hlt hleast
  refine ⟨List.mem_map_of_mem he, hlt, ?_⟩
  intro j hj hlt
  obtain ⟨d, hd, rfl⟩ := List.mem_map.mp hj
  have hkey := hp.keyed d hd
  exact hkey ▸ hleast d hd (hkey ▸ hlt)

section Contents

variable {p : Program} {i j : Instruction} {order : Order}

@[simp] theorem toList_empty : Program.empty.toList = [] := rfl

theorem mem_toList (hp : p.WellFormed) :
    i ∈ p.toList ↔ (i.order, i) ∈ p.instructions.entries := by
  constructor
  · intro hi
    obtain ⟨e, he, rfl⟩ := List.mem_map.mp hi
    rw [← hp.keyed e he]
    exact he
  · intro hi
    exact List.mem_map.mpr ⟨_, hi, rfl⟩

theorem contains_order (hp : p.WellFormed) :
    p.instructions.contains order = true ↔ ∃ i ∈ p.toList, i.order = order := by
  rw [Table.contains_iff]
  constructor
  · rintro ⟨e, he, rfl⟩
    exact ⟨e.2, List.mem_map_of_mem he, (hp.keyed e he).symm⟩
  · rintro ⟨i, hi, rfl⟩
    exact ⟨_, (mem_toList hp).mp hi, rfl⟩

theorem eq_of_order_eq (hp : p.WellFormed) (hi : i ∈ p.toList) (hj : j ∈ p.toList)
    (h : i.order = j.order) : i = j := by
  rw [mem_toList hp] at hi hj
  exact congrArg Prod.snd (hp.ascending.eq_of_key_eq hi hj h)

theorem after?_eq_none_iff (hp : p.WellFormed) :
    p.after? order = none ↔ ∀ i ∈ p.toList, i.order ≤ order := by
  rw [after?]
  by_cases hmax : p.maxOrder ≤ order
  · rw [if_pos hmax]
    refine ⟨fun _ i hi => ?_, fun _ => rfl⟩
    exact Std.le_trans (hp.bounded (i.order, i) ((mem_toList hp).mp hi)) hmax
  · rw [if_neg hmax, Table.above?, Option.map_eq_none_iff, List.find?_eq_none]
    constructor
    · intro h i hi
      exact Std.not_lt.mp (by simpa using h (i.order, i) ((mem_toList hp).mp hi))
    · intro h e he hlt
      have hle := h e.2 (List.mem_map_of_mem he)
      rw [← hp.keyed e he] at hle
      exact Std.not_lt.mpr hle (by simpa using hlt)

theorem after?_eq_some_iff (hp : p.WellFormed) : p.after? order = some i ↔ p.IsNext order i := by
  refine ⟨isNext_of_after? hp, fun h => ?_⟩
  cases hq : p.after? order with
  | some j =>
    have hj := isNext_of_after? hp hq
    have horder := Std.le_antisymm (hj.least i h.stored h.above) (h.least j hj.stored hj.above)
    rw [eq_of_order_eq hp hj.stored h.stored horder]
  | none =>
    have hle := (after?_eq_none_iff hp).mp hq i h.stored
    exact absurd h.above (Std.not_lt.mpr hle)

theorem toList_add_perm {q : Program} (h : p.add i = .ok q) : q.toList.Perm (i :: p.toList) := by
  obtain ⟨-, -, -, labels, -, rfl⟩ := add_eq_ok.mp h
  exact (Table.perm_insertEntry i.order i p.instructions.entries).map Prod.snd

theorem mem_toList_add {q : Program} (h : p.add i = .ok q) :
    j ∈ q.toList ↔ j = i ∨ j ∈ p.toList :=
  (toList_add_perm h).mem_iff.trans List.mem_cons

theorem order_pos (hp : p.Reachable) (hi : i ∈ p.toList) : 0 < i.order := by
  induction hp with
  | empty => nomatch hi
  | add _ h ih =>
    rcases (mem_toList_add h).mp hi with rfl | hi
    · exact (add_eq_ok.mp h).1
    · exact ih hi

/-! Labels. -/

theorem labels_ascending (hp : p.Reachable) : p.labels.Ascending := by
  induction hp with
  | empty => exact .nil
  | add _ h ih =>
    obtain ⟨-, -, -, labels, hlabels, rfl⟩ := add_eq_ok.mp h
    rcases hlabels with ⟨-, rfl⟩ | ⟨name, -, hnew, rfl⟩
    · exact ih
    · exact Table.ascending_insert ih hnew

/-- The label table holds the labels that the instructions declare, and no others. -/
theorem labels_perm (hp : p.Reachable) :
    p.labels.entries.Perm (p.toList.filterMap Instruction.declaration?) := by
  induction hp with
  | empty => exact .refl _
  | @add p q i _ h ih =>
    refine .trans ?_ ((toList_add_perm h).filterMap Instruction.declaration?).symm
    obtain ⟨-, -, -, labels, hlabels, rfl⟩ := add_eq_ok.mp h
    rcases hlabels with ⟨hop, rfl⟩ | ⟨name, hname, -, rfl⟩
    · have hnone : i.declaration? = none := by
        rw [Instruction.declaration?, Instruction.declaredLabel?_eq_none hop]
        rfl
      rw [List.filterMap_cons_none hnone]
      exact ih
    · have hsome : i.declaration? = some (name, i.order) := by
        rw [Instruction.declaration?, hname]
        rfl
      rw [List.filterMap_cons_some hsome]
      exact (Table.perm_insertEntry name i.order p.labels.entries).trans (ih.cons _)

theorem mem_labels (hp : p.Reachable) {name : String} :
    (name, order) ∈ p.labels.entries ↔
      ∃ i ∈ p.toList, i.declaredLabel? = some name ∧ i.order = order := by
  rw [(labels_perm hp).mem_iff, List.mem_filterMap]
  simp only [Instruction.declaration?, Option.map_eq_some_iff, Prod.mk.injEq]
  constructor
  · rintro ⟨i, hi, new, hnew, rfl, horder⟩
    exact ⟨i, hi, hnew, horder⟩
  · rintro ⟨i, hi, hname, horder⟩
    exact ⟨i, hi, name, hname, rfl, horder⟩

theorem labels_eq_some_iff (hp : p.Reachable) {name : String} :
    p.labels.get? name = some order ↔
      ∃ i ∈ p.toList, i.declaredLabel? = some name ∧ i.order = order := by
  rw [(labels_ascending hp).get?_eq_some, mem_labels hp]

theorem resolve_eq_ok_iff (hp : p.Reachable) {name : String} :
    p.resolve name = .ok order ↔
      ∃ i ∈ p.toList, i.declaredLabel? = some name ∧ i.order = order := by
  rw [← labels_eq_some_iff hp, resolve]
  cases p.labels.get? name <;> simp

/-- When an instruction can be added, in terms of the instructions that are there. -/
theorem exists_add_iff (hp : p.Reachable) :
    (∃ q, p.add i = .ok q) ↔ 0 < i.order ∧ (∀ j ∈ p.toList, j.order ≠ i.order) ∧ i.gap? = none ∧
      (i.opcode = .label → ∃ name, i.declaredLabel? = some name ∧
        ∀ j ∈ p.toList, j.declaredLabel? ≠ some name) := by
  have hfree : p.instructions.contains i.order = false ↔ ∀ j ∈ p.toList, j.order ≠ i.order := by
    rw [← Bool.not_eq_true, contains_order (reachable_wellFormed hp)]
    simp
  have hunused (name : String) : p.labels.contains name = false ↔
      ∀ j ∈ p.toList, j.declaredLabel? ≠ some name := by
    rw [← Bool.not_eq_true, Table.contains, Option.isSome_iff_exists]
    simp only [labels_eq_some_iff hp]
    constructor
    · intro h j hj hname
      exact h ⟨j.order, j, hj, hname, rfl⟩
    · rintro h ⟨order, j, hj, hname, -⟩
      exact h j hj hname
  constructor
  · rintro ⟨q, hq⟩
    obtain ⟨hpos, hc, hgap, labels, hlabels, -⟩ := add_eq_ok.mp hq
    refine ⟨hpos, hfree.mp hc, hgap, fun hop => ?_⟩
    rcases hlabels with ⟨hno, -⟩ | ⟨name, hname, hnew, -⟩
    · exact absurd hop hno
    · exact ⟨name, hname, (hunused name).mp hnew⟩
  · rintro ⟨hpos, hne, hgap, hlabel⟩
    obtain ⟨labels, hlabels⟩ : ∃ labels, Enters i p.labels labels := by
      by_cases hop : i.opcode = .label
      · obtain ⟨name, hname, hnew⟩ := hlabel hop
        exact ⟨_, .inr ⟨name, hname, (hunused name).mpr hnew, rfl⟩⟩
      · exact ⟨_, .inl ⟨hop, rfl⟩⟩
    exact ⟨_, add_eq_ok.mpr ⟨hpos, hfree.mpr hne, hgap, labels, hlabels, rfl⟩⟩

end Contents

end Program

end ThreeAddress
