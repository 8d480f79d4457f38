import ThreeAddress.Proofs.ProgramStore

/-! Programs after any number of attempts to add an instruction, refused ones among them. Their
tables fit together at any time, and going from one instruction to the next visits the instructions
from a place on, each of them once. -/

namespace ThreeAddress.Program

def attempts (p : Program) (is : List Instruction) : Program :=
  is.foldl (fun p i => (p.attempt i).2) p

theorem reachable_attempt {p : Program} (hp : p.Reachable) (i : Instruction) :
    (p.attempt i).2.Reachable := by
  cases h : p.attempt i with
  | mk outcome q =>
    cases outcome with
    | ok _ => exact .add hp (show p.add i = .ok q by rw [add, h])
    | error e =>
      rw [attempt_eq_error h]
      exact hp

theorem reachable_attempts {p : Program} (hp : p.Reachable) (is : List Instruction) :
    (p.attempts is).Reachable := by
  induction is generalizing p with
  | nil => exact hp
  | cons i is ih => exact ih (reachable_attempt hp i)

/-! The largest order. -/

structure IsLargest (is : List Instruction) (order : Order) : Prop where
  bound : ∀ i ∈ is, i.order ≤ order
  attained : (is = [] ∧ order = 0) ∨ ∃ i ∈ is, i.order = order

theorem IsLargest.perm {is js : List Instruction} {order : Order} (h : IsLargest is order)
    (hperm : is.Perm js) : IsLargest js order := by
  refine ⟨fun i hi => h.bound i (hperm.mem_iff.mpr hi), ?_⟩
  rcases h.attained with ⟨rfl, horder⟩ | ⟨i, hi, horder⟩
  · exact .inl ⟨hperm.nil_eq.symm, horder⟩
  · exact .inr ⟨i, hperm.mem_iff.mp hi, horder⟩

theorem IsLargest.cons {is : List Instruction} {order : Order} (h : IsLargest is order)
    {i : Instruction} (hi : 0 < i.order) : IsLargest (i :: is) (max order i.order) := by
  constructor
  · intro j hj
    rcases List.mem_cons.mp hj with rfl | hj
    · exact Std.right_le_max
    · exact Std.le_trans (h.bound j hj) Std.left_le_max
  · apply Or.inr
    rcases Std.max_eq_or (a := order) (b := i.order) with hmax | hmax
    · rcases h.attained with ⟨-, rfl⟩ | ⟨j, hj, horder⟩
      · have hle : i.order ≤ 0 := hmax ▸ Std.right_le_max
        exact absurd hi (Std.not_lt.mpr hle)
      · exact ⟨j, by simp [hj], horder.trans hmax.symm⟩
    · exact ⟨i, by simp, hmax.symm⟩

theorem maxOrder_isLargest {p : Program} (hp : p.Reachable) : IsLargest p.toList p.maxOrder := by
  induction hp with
  | empty => exact ⟨by simp, .inl ⟨rfl, rfl⟩⟩
  | add _ h ih =>
    refine IsLargest.perm ?_ (toList_add_perm h).symm
    obtain ⟨hpos, -, -, labels, -, rfl⟩ := add_eq_ok.mp h
    exact ih.cons hpos

/-! Going from one instruction to the next. -/

def above (p : Program) (order : Order) : List Instruction :=
  p.toList.filter fun i => order < i.order

section Walks

variable {p : Program} {i : Instruction} {order : Order}

theorem mem_above : i ∈ p.above order ↔ i ∈ p.toList ∧ order < i.order := by
  simp [above]

theorem above_ascending (hp : p.WellFormed) (order : Order) :
    (p.above order).Pairwise fun i j => i.order < j.order := by
  apply List.Pairwise.filter
  apply List.pairwise_map.mpr
  refine hp.ascending.imp_of_mem fun {d e} hd he hlt => ?_
  rw [← hp.keyed d hd, ← hp.keyed e he]
  exact hlt

theorem after?_eq_head? (hp : p.WellFormed) : p.after? order = (p.above order).head? := by
  cases h : p.above order with
  | nil =>
    rw [List.head?_nil, after?_eq_none_iff hp]
    intro i hi
    refine Std.not_lt.mp fun hlt => ?_
    have hmem := mem_above.mpr ⟨hi, hlt⟩
    rw [h] at hmem
    nomatch hmem
  | cons i rest =>
    rw [List.head?_cons, after?_eq_some_iff hp]
    have hi : i ∈ p.above order := by simp [h]
    refine ⟨(mem_above.mp hi).1, (mem_above.mp hi).2, ?_⟩
    intro j hj hlt
    have hmem := mem_above.mpr ⟨hj, hlt⟩
    have hascending := above_ascending hp order
    rw [h] at hmem hascending
    rcases List.mem_cons.mp hmem with rfl | hmem
    · exact Std.le_refl _
    · exact Std.le_of_lt ((List.pairwise_cons.mp hascending).1 j hmem)

theorem above_of_cons (hp : p.WellFormed) {rest : List Instruction}
    (h : p.above order = i :: rest) : p.above i.order = rest := by
  have hlt : order < i.order := (mem_above.mp (show i ∈ p.above order by simp [h])).2
  have hascending := above_ascending hp order
  rw [h, List.pairwise_cons] at hascending
  calc p.above i.order
      = (p.above order).filter fun j => i.order < j.order := by
        rw [above, above, List.filter_filter]
        apply List.filter_congr
        intro j _
        by_cases hj : i.order < j.order
        · simp [hj, Std.lt_trans hlt hj]
        · simp [hj]
    _ = rest.filter fun j => i.order < j.order := by simp [h, Std.lt_irrefl]
    _ = rest := List.filter_eq_self.mpr fun j hj => by simpa using hascending.1 j hj

theorem length_above_le (p : Program) (order : Order) :
    (p.above order).length ≤ p.instructions.size :=
  calc (p.above order).length
      ≤ p.toList.length := List.length_filter_le _ _
    _ = p.instructions.size := List.length_map _

theorem walkFor_eq_take (hp : p.WellFormed) (n : Nat) (order : Order) :
    p.walkFor n order = (p.above order).take n := by
  induction n generalizing order with
  | zero => rfl
  | succ n ih =>
    rw [walkFor, after?_eq_head? hp]
    cases h : p.above order with
    | nil => rfl
    | cons i rest =>
      rw [List.take_succ_cons, ← above_of_cons hp h, ← ih]
      rfl

theorem walk_eq_above (hp : p.WellFormed) (order : Order) : p.walk order = p.above order := by
  rw [walk, walkFor_eq_take hp]
  exact List.take_of_length_le (p.length_above_le order)

end Walks

/-- The instructions stand under their own orders, the label table tells where the labels among
them are, and the largest order is theirs. -/
structure Consistent (p : Program) : Prop where
  once : p.instructions.Ascending
  keyed : ∀ e ∈ p.instructions.entries, e.1 = e.2.order ∧ 0 < e.1
  declaredOnce : p.labels.Ascending
  declared : ∀ name order, (name, order) ∈ p.labels.entries ↔
    ∃ i ∈ p.toList, i.Declares name ∧ i.order = order
  largest : IsLargest p.toList p.maxOrder

theorem reachable_consistent {p : Program} (hp : p.Reachable) : p.Consistent := by
  have hwell := reachable_wellFormed hp
  refine ⟨hwell.ascending, ?_, labels_ascending hp, ?_, maxOrder_isLargest hp⟩
  · intro e he
    have hkey := hwell.keyed e he
    exact ⟨hkey, hkey ▸ order_pos hp (List.mem_map_of_mem he)⟩
  · intro name order
    simp only [mem_labels hp, Instruction.declaredLabel?_eq_some]

/-- Whatever has been tried, the program is consistent, a further attempt that fails changes
nothing, and from any order on the instructions above it are found, one after the other. -/
theorem attempts_consistent (is : List Instruction) :
    let p := Program.empty.attempts is
    p.Consistent ∧
    (∀ i e q, p.attempt i = (.error e, q) → q = p) ∧
    ∀ order : Order,
      (∀ i, p.after? order = some i ↔ p.IsNext order i) ∧
      (p.after? order = none ↔ ∀ i ∈ p.toList, ¬ order < i.order) ∧
      (∀ i, i ∈ p.walk order ↔ i ∈ p.toList ∧ order < i.order) ∧
      (p.walk order).Pairwise (fun i j => i.order < j.order) ∧
      ∀ n, p.walkFor n order = (p.walk order).take n := by
  intro p
  have hp : p.Reachable := reachable_attempts .empty is
  have hwell := reachable_wellFormed hp
  refine ⟨reachable_consistent hp, fun i e q => attempt_eq_error, fun order => ?_⟩
  rw [walk_eq_above hwell]
  refine ⟨fun i => after?_eq_some_iff hwell, ?_, fun i => mem_above, above_ascending hwell order,
    fun n => walkFor_eq_take hwell n order⟩
  simp only [after?_eq_none_iff hwell, Std.not_lt]

-- the second label comes under an order that is taken, the third under a name that is taken
example :
    let label (order : Order) (name : String) : Instruction :=
      { order := order, opcode := .label, arg1 := some (.label name) }
    let is := [label 5 "a", label 5 "b", label 3 "a", label 0 "c", label 4 "b"]
    (Program.empty.attempts is).walk 0 = [label 4 "b", label 5 "a"] := by
  decide +kernel

end ThreeAddress.Program
