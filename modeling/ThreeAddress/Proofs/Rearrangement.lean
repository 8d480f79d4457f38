import Mathlib.Data.List.Forall2
import ThreeAddress.Proofs.StoreInvariant
import ThreeAddress.Source

/-! The sequence in which instructions are added to a program makes no difference, nor does the
sequence of the elements that they are read from. Any two additions that succeed commute; whether
all of them succeed is a condition on the instructions as a whole. -/

namespace ThreeAddress

/-! Folds whose steps commute. -/

section Folds

variable {ε α β : Type} {f : β → α → Except ε β}

/-- Two steps that succeed one after the other succeed the other way round, and come to the same. -/
def Commutes (f : β → α → Except ε β) : Prop :=
  ∀ b x y c d, f b x = .ok c → f c y = .ok d → ∃ c', f b y = .ok c' ∧ f c' x = .ok d

theorem foldlM_perm (hf : Commutes f) {xs ys : List α} (h : xs.Perm ys) {b c : β}
    (hc : xs.foldlM f b = .ok c) : ys.foldlM f b = .ok c := by
  induction h generalizing b with
  | nil => exact hc
  | cons x _ ih =>
    rw [List.foldlM_cons] at hc ⊢
    obtain ⟨d, hd, hc⟩ := bind_eq_ok.mp hc
    exact bind_eq_ok.mpr ⟨d, hd, ih hc⟩
  | swap x y xs =>
    rw [List.foldlM_cons] at hc ⊢
    obtain ⟨d, hd, hc⟩ := bind_eq_ok.mp hc
    rw [List.foldlM_cons] at hc
    obtain ⟨e, he, hc⟩ := bind_eq_ok.mp hc
    obtain ⟨d', hd', he'⟩ := hf b y x d e hd he
    refine bind_eq_ok.mpr ⟨d', hd', ?_⟩
    rw [List.foldlM_cons]
    exact bind_eq_ok.mpr ⟨e, he', hc⟩
  | trans _ _ ih₁ ih₂ => exact ih₂ (ih₁ hc)

theorem foldlM_forall₂ {R : α → α → Prop}
    (hR : ∀ b x y c, R x y → f b x = .ok c → f b y = .ok c) {xs ys : List α}
    (h : List.Forall₂ R xs ys) {b c : β} (hc : xs.foldlM f b = .ok c) : ys.foldlM f b = .ok c := by
  induction h generalizing b with
  | nil => exact hc
  | cons hxy _ ih =>
    rw [List.foldlM_cons] at hc ⊢
    obtain ⟨d, hd, hc⟩ := bind_eq_ok.mp hc
    exact bind_eq_ok.mpr ⟨d, hR _ _ _ _ hxy hd, ih hc⟩

end Folds

/-! Additions. -/

namespace Table

variable {κ α : Type} [LE κ] [LT κ] [DecidableLT κ] [Std.IsLinearOrder κ] [Std.LawfulOrderLT κ]

theorem insertEntry_comm {k l : κ} (hkl : k < l) (a b : α) (entries : List (κ × α)) :
    insertEntry l b (insertEntry k a entries) = insertEntry k a (insertEntry l b entries) := by
  have hlk : ¬ l < k := Std.not_lt.mpr (Std.le_of_lt hkl)
  induction entries with
  | nil => simp [insertEntry, hkl, hlk]
  | cons e entries ih =>
    by_cases hl : l < e.1
    · have hk : k < e.1 := Std.lt_trans hkl hl
      simp [insertEntry, hk, hl, hkl, hlk]
    · by_cases hk : k < e.1
      · simp [insertEntry, hk, hl, hlk]
      · simp [insertEntry, hk, hl, ih]

theorem insert_comm (t : Table κ α) {k l : κ} (h : k ≠ l) (a b : α) :
    (t.insert k a).insert l b = (t.insert l b).insert k a := by
  rcases Std.lt_trichotomy k l with hlt | heq | hgt
  · exact congrArg Table.mk (insertEntry_comm hlt a b t.entries)
  · exact absurd heq h
  · exact congrArg Table.mk (insertEntry_comm hgt b a t.entries).symm

omit [LE κ] [Std.IsLinearOrder κ] [Std.LawfulOrderLT κ] in
theorem not_contains_insert [DecidableEq κ] {t : Table κ α} {k l : κ} {a : α}
    (hk : t.contains k = false) :
    (t.insert k a).contains l = false ↔ l ≠ k ∧ t.contains l = false := by
  rw [contains, get?_insert hk]
  by_cases h : l = k
  · simp [h]
  · simp [h, contains]

end Table

namespace Program

theorem Enters.comm {i j : Instruction} {labels labels₁ labels₂ : Table String Order}
    (hi : Enters i labels labels₁) (hj : Enters j labels₁ labels₂) :
    ∃ labels', Enters j labels labels' ∧ Enters i labels' labels₂ := by
  rcases hi with ⟨hi, rfl⟩ | ⟨name, hname, hfree, rfl⟩
  · exact ⟨labels₂, hj, .inl ⟨hi, rfl⟩⟩
  · rcases hj with ⟨hj, rfl⟩ | ⟨name', hname', hfree', rfl⟩
    · exact ⟨labels, .inl ⟨hj, rfl⟩, .inr ⟨name, hname, hfree, rfl⟩⟩
    · obtain ⟨hne, hfree'⟩ := (Table.not_contains_insert hfree).mp hfree'
      refine ⟨_, .inr ⟨name', hname', hfree', rfl⟩, .inr ⟨name, hname, ?_, ?_⟩⟩
      · exact (Table.not_contains_insert hfree').mpr ⟨hne.symm, hfree⟩
      · exact labels.insert_comm hne.symm _ _

theorem max_order_right_comm (a b c : Order) : max (max a b) c = max (max a c) b := by
  have hle (a b c : Order) : max (max a b) c ≤ max (max a c) b := by
    have hac : max a c ≤ max (max a c) b := Std.left_le_max
    rw [Std.max_le_iff, Std.max_le_iff]
    exact ⟨⟨Std.le_trans Std.left_le_max hac, Std.right_le_max⟩, Std.le_trans Std.right_le_max hac⟩
  exact Std.le_antisymm (hle a b c) (hle a c b)

theorem add_commutes : Commutes add := by
  intro p i j q r hq hr
  obtain ⟨hi, hfree, hgap, labels, hlabels, rfl⟩ := add_eq_ok.mp hq
  obtain ⟨hj, hfree', hgap', labels', hlabels', rfl⟩ := add_eq_ok.mp hr
  obtain ⟨hne, hfree'⟩ := (Table.not_contains_insert hfree).mp hfree'
  obtain ⟨between, hbetween, hlabels'⟩ := hlabels.comm hlabels'
  refine ⟨_, add_eq_ok.mpr ⟨hj, hfree', hgap', between, hbetween, rfl⟩, ?_⟩
  refine add_eq_ok.mpr ⟨hi, ?_, hgap, labels', hlabels', ?_⟩
  · exact (Table.not_contains_insert hfree').mpr ⟨hne.symm, hfree⟩
  · rw [Table.insert_comm _ hne.symm, max_order_right_comm]

theorem ofInstructions_perm {is js : List Instruction} (h : is.Perm js) {p : Program}
    (hp : ofInstructions is = .ok p) : ofInstructions js = .ok p :=
  foldlM_perm add_commutes h hp

end Program

/-! Which instructions make up a program. -/

def Instruction.Gapless (i : Instruction) : Prop :=
  ∀ m n, 1 ≤ m → m < n → (i.get? n).isSome → (i.get? m).isSome

theorem Instruction.gap?_eq_none {i : Instruction} : i.gap? = none ↔ i.Gapless := by
  constructor
  · intro h m n hm hmn hn
    obtain ⟨order, opcode, arg1, arg2, arg3⟩ := i
    have hn3 : n ≤ 3 := by
      apply Nat.le_of_not_lt
      intro hlt
      obtain ⟨k, rfl⟩ : ∃ k, n = k + 4 := ⟨n - 4, by omega⟩
      simp [get?] at hn
    obtain ⟨rfl, rfl⟩ | ⟨rfl, rfl⟩ | ⟨rfl, rfl⟩ :
        (m = 1 ∧ n = 2) ∨ (m = 1 ∧ n = 3) ∨ (m = 2 ∧ n = 3) := by omega
    all_goals cases arg1 <;> cases arg2 <;> cases arg3 <;> simp_all [gap?, get?]
  · intro h
    have h12 := h 1 2 (by decide) (by decide)
    have h13 := h 1 3 (by decide) (by decide)
    have h23 := h 2 3 (by decide) (by decide)
    obtain ⟨order, opcode, arg1, arg2, arg3⟩ := i
    cases arg1 <;> cases arg2 <;> cases arg3 <;> simp_all [gap?, get?]

namespace Program

/-- The conditions on instructions that are to make up a program. -/
structure Admissible (is : List Instruction) : Prop where
  positive : ∀ i ∈ is, 0 < i.order
  distinct : is.Pairwise fun i j => i.order ≠ j.order
  gapless : ∀ i ∈ is, i.Gapless
  labelled : ∀ i ∈ is, i.opcode = .label → ∃ name, i.Declares name
  unambiguous : is.Pairwise fun i j => ∀ name, i.Declares name → ¬ j.Declares name

namespace Admissible

variable {is js : List Instruction}

theorem perm (h : Admissible is) (hperm : is.Perm js) : Admissible js where
  positive i hi := h.positive i (hperm.mem_iff.mpr hi)
  distinct := (hperm.pairwise_iff fun hne => hne.symm).mp h.distinct
  gapless i hi := h.gapless i (hperm.mem_iff.mpr hi)
  labelled i hi := h.labelled i (hperm.mem_iff.mpr hi)
  unambiguous :=
    (hperm.pairwise_iff fun hij name hj hi => hij name hi hj).mp h.unambiguous

theorem sublist (h : Admissible is) (hsub : js.Sublist is) : Admissible js where
  positive i hi := h.positive i (hsub.subset hi)
  distinct := h.distinct.sublist hsub
  gapless i hi := h.gapless i (hsub.subset hi)
  labelled i hi := h.labelled i (hsub.subset hi)
  unambiguous := h.unambiguous.sublist hsub

end Admissible

theorem exists_add_iff_admissible {p : Program} (hp : p.Reachable) (h : Admissible p.toList)
    {i : Instruction} : (∃ q, p.add i = .ok q) ↔ Admissible (i :: p.toList) := by
  rw [exists_add_iff hp]
  simp only [Instruction.gap?_eq_none, ne_eq, Instruction.declaredLabel?_eq_some]
  constructor
  · rintro ⟨hpos, hfree, hgap, hlabel⟩
    refine ⟨?_, ?_, ?_, ?_, ?_⟩
    · exact List.forall_mem_cons.mpr ⟨hpos, h.positive⟩
    · exact List.pairwise_cons.mpr ⟨fun j hj heq => hfree j hj heq.symm, h.distinct⟩
    · exact List.forall_mem_cons.mpr ⟨hgap, h.gapless⟩
    · refine List.forall_mem_cons.mpr ⟨fun hop => ?_, h.labelled⟩
      obtain ⟨name, hname, -⟩ := hlabel hop
      exact ⟨name, hname⟩
    · refine List.pairwise_cons.mpr ⟨fun j hj name hi => ?_, h.unambiguous⟩
      obtain ⟨name', hname', hnew⟩ := hlabel hi.1
      rw [hi.unique hname']
      exact hnew j hj
  · intro h
    obtain ⟨hfree, -⟩ := List.pairwise_cons.mp h.distinct
    obtain ⟨hnew, -⟩ := List.pairwise_cons.mp h.unambiguous
    refine ⟨h.positive i (by simp), fun j hj heq => hfree j hj heq.symm, h.gapless i (by simp), ?_⟩
    intro hop
    obtain ⟨name, hname⟩ := h.labelled i (by simp) hop
    exact ⟨name, hname, fun j hj => hnew j hj name hname⟩

theorem admissible_toList {p : Program} (hp : p.Reachable) : Admissible p.toList := by
  induction hp with
  | empty => constructor <;> simp
  | add hp h ih =>
    exact ((exists_add_iff_admissible hp ih).mp ⟨_, h⟩).perm (toList_add_perm h).symm

/-- The induction is on what is still to be added; what has been added is in the program. -/
theorem exists_addAll_iff {p : Program} (hp : p.Reachable) (is : List Instruction) :
    (∃ q, p.addAll is = .ok q) ↔ Admissible (p.toList ++ is) := by
  induction is generalizing p with
  | nil =>
    rw [List.append_nil]
    exact ⟨fun _ => admissible_toList hp, fun _ => ⟨p, rfl⟩⟩
  | cons i is ih =>
    have hmove {r : Program} (hr : p.add i = .ok r) :
        (r.toList ++ is).Perm (p.toList ++ i :: is) :=
      ((toList_add_perm hr).append_right is).trans List.perm_middle.symm
    constructor
    · rintro ⟨q, hq⟩
      obtain ⟨r, hr, hq⟩ := bind_eq_ok.mp hq
      exact ((ih (.add hp hr)).mp ⟨q, hq⟩).perm (hmove hr)
    · intro h
      have hfirst : (i :: p.toList).Sublist (i :: (p.toList ++ is)) :=
        (List.sublist_append_left p.toList is).cons_cons i
      obtain ⟨r, hr⟩ := (exists_add_iff_admissible hp (admissible_toList hp)).mpr
        ((h.perm List.perm_middle).sublist hfirst)
      obtain ⟨q, hq⟩ := (ih (.add hp hr)).mpr (h.perm (hmove hr).symm)
      exact ⟨q, bind_eq_ok.mpr ⟨r, hr, hq⟩⟩

theorem toList_addAll_perm {p q : Program} {is : List Instruction} (h : p.addAll is = .ok q) :
    q.toList.Perm (p.toList ++ is) := by
  induction is generalizing p with
  | nil =>
    obtain rfl : p = q := Except.ok.inj h
    rw [List.append_nil]
  | cons i is ih =>
    obtain ⟨r, hr, h⟩ := bind_eq_ok.mp h
    exact (ih h).trans (((toList_add_perm hr).append_right is).trans List.perm_middle.symm)

/-- All that a program tells about its contents, in terms of the instructions put into it. -/
structure Holds (p : Program) (is : List Instruction) : Prop where
  get? : ∀ order i, p.get? order = some i ↔ i ∈ is ∧ i.order = order
  resolve : ∀ name order, p.resolve name = .ok order ↔ ∃ i ∈ is, i.Declares name ∧ i.order = order
  size : p.instructions.size = is.length
  labels : p.labels.size = is.countP fun i => i.opcode = .label
  largest : IsLargest is p.maxOrder

theorem holds_toList {p : Program} (hp : p.Reachable) : p.Holds p.toList where
  get? order i := by
    have hwell := reachable_wellFormed hp
    rw [get?, hwell.ascending.get?_eq_some, mem_toList hwell]
    constructor
    · intro h
      have hkey := hwell.keyed _ h
      exact ⟨hkey ▸ h, hkey.symm⟩
    · rintro ⟨h, rfl⟩
      exact h
  resolve name order := by
    simp only [resolve_eq_ok_iff hp, Instruction.declaredLabel?_eq_some]
  size := (List.length_map _).symm
  labels := by
    rw [Table.size, (labels_perm hp).length_eq, List.length_filterMap_eq_countP]
    apply List.countP_congr
    intro i hi
    rw [Instruction.declaration?, Option.isSome_map, Option.isSome_iff_exists, decide_eq_true_eq]
    simp only [Instruction.declaredLabel?_eq_some]
    refine ⟨?_, (admissible_toList hp).labelled i hi⟩
    rintro ⟨name, h⟩
    exact h.1
  largest := maxOrder_isLargest hp

theorem Holds.perm {p : Program} {is js : List Instruction} (h : p.Holds is)
    (hperm : is.Perm js) : p.Holds js where
  get? order i := by rw [h.get?, hperm.mem_iff]
  resolve name order := by simp only [h.resolve, hperm.mem_iff]
  size := h.size.trans hperm.length_eq
  labels := h.labels.trans (hperm.countP_eq _)
  largest := h.largest.perm hperm

end Program

/-! Rearranged markup. -/

namespace Source

open Markup (Element)

/-- Elements with the same name, attributes and text of their own, perhaps on different lines. -/
structure Alike (e e' : Element) : Prop where
  name : e'.name = e.name
  attributes : e'.attributes = e.attributes
  text : e'.text = e.text

/-- Elements that are alike, the children of one being those of the other in another sequence, up to
a relation between the children themselves. -/
structure Rearranged (R : Element → Element → Prop) (e e' : Element) : Prop extends Alike e e' where
  children : ∃ between, e.children.Perm between ∧ List.Forall₂ R between e'.children

theorem Alike.required {e e' : Element} (h : Alike e e') {key value : String}
    (hvalue : required e key = .ok value) : required e' key = .ok value := by
  unfold Source.required Element.attribute? at hvalue ⊢
  rw [h.attributes]
  split at hvalue
  · exact hvalue
  · nomatch hvalue

theorem operand_line {kind text : String} {line : Nat} {a : Operand}
    (h : operand kind text line = .ok a) (line' : Nat) : operand kind text line' = .ok a := by
  unfold operand at h ⊢
  dsimp only at h ⊢
  split at h
  case h_3 | h_4 => exact h
  case h_9 => cases h
  all_goals
    split at h
    · exact h
    · cases h

theorem position?_bounds {name : String} {position : Nat} (h : position? name = some position) :
    1 ≤ position ∧ position ≤ 3 := by
  unfold position? at h
  split at h <;> cases h <;> decide

theorem addArgument_eq_ok {i j : Instruction} {e : Element} :
    addArgument i e = .ok j ↔ ∃ position kind a, position? e.name = some position ∧
      i.get? position = none ∧ required e "type" = .ok kind ∧
      operand kind e.text e.line = .ok a ∧ j = i.set position a := by
  rw [addArgument]
  cases hposition : position? e.name with
  | none => simp
  | some position =>
    cases hvacant : i.get? position with
    | some a => simp [hvacant]
    | none =>
      simp only [hvacant, Option.isSome_none, Bool.false_eq_true, if_false, bind_eq_ok]
      constructor
      · rintro ⟨kind, hkind, a, ha, hj⟩
        exact ⟨position, kind, a, rfl, hvacant, hkind, ha, (Except.ok.inj hj).symm⟩
      · rintro ⟨_, kind, a, hsome, -, hkind, ha, rfl⟩
        obtain rfl := Option.some.inj hsome
        exact ⟨kind, hkind, a, ha, rfl⟩

theorem addArgument_commutes : Commutes addArgument := by
  intro i e e' j k hj hk
  obtain ⟨m, kind, a, hm, hvacant, hkind, ha, rfl⟩ := addArgument_eq_ok.mp hj
  obtain ⟨n, kind', b, hn, hvacant', hkind', hb, rfl⟩ := addArgument_eq_ok.mp hk
  have hne : m ≠ n := by
    rintro rfl
    rw [Instruction.get?_set_self (position?_bounds hm)] at hvacant'
    cases hvacant'
  rw [Instruction.get?_set_of_ne hne.symm] at hvacant'
  refine ⟨_, addArgument_eq_ok.mpr ⟨n, kind', b, hn, hvacant', hkind', hb, rfl⟩, ?_⟩
  refine addArgument_eq_ok.mpr ⟨m, kind, a, hm, ?_, hkind, ha, Instruction.set_comm hne a b⟩
  rw [Instruction.get?_set_of_ne hne]
  exact hvacant

theorem addArgument_alike {i j : Instruction} {e e' : Element} (h : Alike e e')
    (hj : addArgument i e = .ok j) : addArgument i e' = .ok j := by
  obtain ⟨position, kind, a, hposition, hvacant, hkind, ha, rfl⟩ := addArgument_eq_ok.mp hj
  refine addArgument_eq_ok.mpr ⟨position, kind, a, ?_, hvacant, h.required hkind, ?_, rfl⟩
  · rw [h.name]
    exact hposition
  · rw [h.text]
    exact operand_line ha e'.line

theorem order_alike {e e' : Element} (h : Alike e e') {n : Order} (hn : order e = .ok n) :
    order e' = .ok n := by
  obtain ⟨text, htext, hn⟩ := bind_eq_ok.mp hn
  refine bind_eq_ok.mpr ⟨text, h.required htext, ?_⟩
  split at hn
  · split at hn
    · rename_i hpos
      rw [if_pos hpos]
      exact hn
    · cases hn
  · cases hn

theorem opcode_alike {e e' : Element} (h : Alike e e') {op : Opcode} (hop : opcode e = .ok op) :
    opcode e' = .ok op := by
  obtain ⟨text, htext, hop⟩ := bind_eq_ok.mp hop
  refine bind_eq_ok.mpr ⟨text, h.required htext, ?_⟩
  split at hop
  · exact hop
  · cases hop

theorem instruction_rearranged {e e' : Element} (h : Rearranged Alike e e') {i : Instruction}
    (hi : instruction e = .ok i) : instruction e' = .ok i := by
  rw [instruction] at hi ⊢
  rw [h.name]
  by_cases hname : e.name = "instruction"
  · rw [if_pos hname] at hi ⊢
    obtain ⟨n, hn, hi⟩ := bind_eq_ok.mp hi
    obtain ⟨op, hop, hi⟩ := bind_eq_ok.mp hi
    obtain ⟨between, hperm, hrelated⟩ := h.children
    refine bind_eq_ok.mpr ⟨n, order_alike h.toAlike hn, ?_⟩
    refine bind_eq_ok.mpr ⟨op, opcode_alike h.toAlike hop, ?_⟩
    refine foldlM_forall₂ ?_ hrelated (foldlM_perm addArgument_commutes hperm hi)
    exact fun i e e' j => addArgument_alike
  · rw [if_neg hname] at hi
    cases hi

theorem addInstruction_eq_ok {p q : Program} {e : Element} :
    addInstruction p e = .ok q ↔ ∃ i, instruction e = .ok i ∧ p.add i = .ok q := by
  simp only [addInstruction, bind_eq_ok, mapError_eq_ok]

theorem addInstruction_commutes : Commutes addInstruction := by
  intro p e e' q r hq hr
  obtain ⟨i, hi, hq⟩ := addInstruction_eq_ok.mp hq
  obtain ⟨j, hj, hr⟩ := addInstruction_eq_ok.mp hr
  obtain ⟨q', hq', hr'⟩ := Program.add_commutes p i j q r hq hr
  exact ⟨q', addInstruction_eq_ok.mpr ⟨j, hj, hq'⟩, addInstruction_eq_ok.mpr ⟨i, hi, hr'⟩⟩

/-- The instructions may come in any sequence, and so may the arguments of each of them. -/
theorem program_rearranged {root root' : Element} {p : Program}
    (h : Rearranged (Rearranged Alike) root root') (hp : program root = .ok p) :
    program root' = .ok p := by
  rw [program, Element.attribute?] at hp ⊢
  rw [h.name, h.attributes]
  by_cases hname : root.name = "program"
  · rw [if_pos hname] at hp ⊢
    dsimp only at hp ⊢
    split at hp
    · rename_i hlanguage
      obtain ⟨between, hperm, hrelated⟩ := h.children
      rw [if_pos hlanguage]
      refine foldlM_forall₂ ?_ hrelated (foldlM_perm addInstruction_commutes hperm hp)
      intro p e e' q he hq
      obtain ⟨i, hi, hq⟩ := addInstruction_eq_ok.mp hq
      exact addInstruction_eq_ok.mpr ⟨i, instruction_rearranged he hi, hq⟩
    · cases hp
  · rw [if_neg hname] at hp
    cases hp

end Source

/-- Which instructions make up a program, what it then tells about them, and that their sequence
makes no difference, be they given as they are or by elements of a document. -/
theorem Program.contents_of_instructions (is : List Instruction) :
    ((∃ p, ofInstructions is = .ok p) ↔ Admissible is) ∧
    (∀ p, ofInstructions is = .ok p → p.Holds is) ∧
    (∀ js, is.Perm js → (ofInstructions js).toOption = (ofInstructions is).toOption) ∧
    ∀ root root' p, Source.Rearranged (Source.Rearranged Source.Alike) root root' →
      Source.program root = .ok p → Source.program root' = .ok p := by
  refine ⟨exists_addAll_iff .empty is, ?_, ?_, fun root root' p => Source.program_rearranged⟩
  · intro p hp
    exact (holds_toList (reachable_ofInstructions hp)).perm (toList_addAll_perm hp)
  · intro js hperm
    cases hp : ofInstructions is with
    | ok p => rw [ofInstructions_perm hperm hp]
    | error e =>
      cases hq : ofInstructions js with
      | ok q =>
        rw [ofInstructions_perm hperm.symm hq] at hp
        cases hp
      | error e' => rfl

/-- Three instructions, a label among them, forwards and backwards, and the elements that they are
read from, with the arguments of one of them the other way round. -/
theorem Program.contents_of_three_instructions :
    let x : Variable := ⟨.global, "x"⟩
    let i : Instruction := { order := 1, opcode := .defVar, arg1 := some (.var x) }
    let j : Instruction :=
      { order := 2, opcode := .move, arg1 := some (.var x), arg2 := some (.const (.int 7)) }
    let k : Instruction := { order := 5, opcode := .label, arg1 := some (.label "end") }
    let p : Program := ⟨⟨[(1, i), (2, j), (5, k)]⟩, ⟨[("end", 5)]⟩, 5⟩
    let arg1 : Markup.Element := ⟨"arg1", [("type", "var")], "GF@x", [], 3⟩
    let arg2 : Markup.Element := ⟨"arg2", [("type", "int")], "7", [], 4⟩
    let name : Markup.Element := ⟨"arg1", [("type", "label")], "end", [], 7⟩
    let move (args : List Markup.Element) : Markup.Element :=
      ⟨"instruction", [("order", "2"), ("opcode", "MOVE")], "", args, 2⟩
    let declare : Markup.Element :=
      ⟨"instruction", [("order", "1"), ("opcode", "DEFVAR")], "", [arg1], 5⟩
    let label : Markup.Element :=
      ⟨"instruction", [("order", "5"), ("opcode", "LABEL")], "", [name], 6⟩
    let root (children : List Markup.Element) : Markup.Element :=
      ⟨"program", [("language", "IPPcode22")], "", children, 1⟩
    Admissible [k, j, i] ∧ p.Holds [k, j, i] ∧ p.resolve "end" = .ok 5 ∧ p.labels.size = 1 ∧
      (ofInstructions [i, j, k]).toOption = some p ∧
      Source.program (root [label, move [arg1, arg2], declare]) = .ok p ∧
      Source.program (root [declare, move [arg2, arg1], label]) = .ok p := by
  intro x i j k p arg1 arg2 name move declare label root
  obtain ⟨haccepted, hholds, hsequence, hmarkup⟩ := contents_of_instructions [k, j, i]
  have halike (e : Markup.Element) : Source.Alike e e := ⟨rfl, rfl, rfl⟩
  have hmove : Source.Rearranged Source.Alike (move [arg1, arg2]) (move [arg2, arg1]) :=
    ⟨⟨rfl, rfl, rfl⟩, [arg2, arg1], .swap _ _ _, .cons (halike _) (.cons (halike _) .nil)⟩
  have hdeclare : Source.Rearranged Source.Alike declare declare :=
    ⟨halike _, [arg1], .refl _, .cons (halike _) .nil⟩
  have hlabel : Source.Rearranged Source.Alike label label :=
    ⟨halike _, [name], .refl _, .cons (halike _) .nil⟩
  have hroot : Source.Rearranged (Source.Rearranged Source.Alike)
      (root [label, move [arg1, arg2], declare]) (root [declare, move [arg2, arg1], label]) :=
    ⟨⟨rfl, rfl, rfl⟩, [declare, move [arg1, arg2], label], (List.reverse_perm _).symm,
      .cons hdeclare (.cons hmove (.cons hlabel .nil))⟩
  have hp : ofInstructions [k, j, i] = .ok p := by decide +kernel
  have hread : Source.program (root [label, move [arg1, arg2], declare]) = .ok p := by
    decide +kernel
  have hcontents := hholds p hp
  refine ⟨haccepted.mp ⟨p, hp⟩, hcontents, ?_, hcontents.labels, ?_, hread,
    hmarkup _ _ p hroot hread⟩
  · exact (hcontents.resolve "end" 5).mpr ⟨k, List.mem_cons_self, ⟨rfl, rfl⟩, rfl⟩
  · rw [hsequence [i, j, k] (List.reverse_perm _).symm, hp]
    rfl

end ThreeAddress
