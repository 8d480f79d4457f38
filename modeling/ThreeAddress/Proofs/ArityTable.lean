import ThreeAddress.Proofs.DeeperStack
import ThreeAddress.Proofs.FrameEffects
import ThreeAddress.Proofs.Rearrangement

/-! Numbers of operands. The table of arities and the positions that instructions look at are
written at different places; they agree. An instruction of a program that has as many operands as
the table says never looks at a vacant position, and any other number is found at once. -/

namespace ThreeAddress

namespace Instruction

def operandCount (i : Instruction) : Nat := i.args.countP Option.isSome

def vacate (i : Instruction) (position : Nat) : Instruction :=
  match position with
  | 1 => { i with arg1 := none }
  | 2 => { i with arg2 := none }
  | 3 => { i with arg3 := none }
  | _ => i

theorem opcode_vacate (i : Instruction) (position : Nat) :
    (i.vacate position).opcode = i.opcode := by
  unfold vacate
  split <;> rfl

theorem get?_vacate_self (i : Instruction) (position : Nat) :
    (i.vacate position).get? position = none := by
  unfold vacate get?
  split <;> rfl

variable {i : Instruction}

theorem Gapless.isSome_get? (h : i.Gapless) (position : Nat) :
    (i.get? position).isSome ↔ 1 ≤ position ∧ position ≤ i.operandCount := by
  obtain ⟨order, opcode, arg1, arg2, arg3⟩ := i
  have h12 : arg2.isSome → arg1.isSome := h 1 2 (by decide) (by decide)
  have h23 : arg3.isSome → arg2.isSome := h 2 3 (by decide) (by decide)
  match position with
  | 0 | 1 | 2 | 3 | _ + 4 =>
    cases arg1 <;> cases arg2 <;> cases arg3 <;> simp_all [operandCount, args, get?]

open Machine in
/-- Without gaps the first fault found is told by the number of operands alone. -/
theorem Gapless.arityFault?_eq (h : i.Gapless) :
    i.arityFault? =
      if i.operandCount < i.opcode.arity then
        some (.missingArgument i.opcode (i.operandCount + 1))
      else if i.opcode.arity < i.operandCount then
        some (.unexpectedArgument i.opcode (i.opcode.arity + 1))
      else none := by
  obtain ⟨order, opcode, arg1, arg2, arg3⟩ := i
  have h12 : arg2.isSome → arg1.isSome := h 1 2 (by decide) (by decide)
  have h23 : arg3.isSome → arg2.isSome := h 2 3 (by decide) (by decide)
  have hle := arity_le_three opcode
  obtain harity | harity | harity | harity :
      opcode.arity = 0 ∨ opcode.arity = 1 ∨ opcode.arity = 2 ∨ opcode.arity = 3 := by omega
  all_goals
    cases arg1 <;> cases arg2 <;> cases arg3 <;>
      simp_all [arityFault?, operandCount, args, get?]

end Instruction

namespace Machine

open Exec

/-! Which positions a computation looks at. -/

namespace Exec

variable {α β : Type} {i : Instruction} {positions others : List Nat}

/-- The computation looks at these positions of an instruction: one of them is vacant whenever it
finds fault with the number of operands, and it does not succeed while one is. -/
structure Requires (i : Instruction) (positions : List Nat) (x : Exec α) : Prop where
  faulty : ∀ s t fault, x s = (.error fault, t) → fault.isArity = true →
    ∃ position ∈ positions, i.get? position = none ∧
      fault = .missingArgument i.opcode position
  needed : ∀ s t a, x s = (.ok a, t) → ∀ position ∈ positions, (i.get? position).isSome

theorem Requires.bind {x : Exec α} {g : α → Exec β} (hx : Requires i positions x)
    (hg : ∀ a, Requires i others (g a)) : Requires i (positions ++ others) (x >>= g) where
  faulty s t fault h harity := by
    rcases apply_bind_eq_error.mp h with h | ⟨a, u, -, h⟩
    · obtain ⟨position, hmem, hvacant⟩ := hx.faulty s t fault h harity
      exact ⟨position, List.mem_append_left others hmem, hvacant⟩
    · obtain ⟨position, hmem, hvacant⟩ := (hg a).faulty u t fault h harity
      exact ⟨position, List.mem_append_right positions hmem, hvacant⟩
  needed s t b h position hmem := by
    obtain ⟨a, u, ha, hb⟩ := apply_bind_eq_ok.mp h
    rcases List.mem_append.mp hmem with hmem | hmem
    · exact hx.needed s u a ha position hmem
    · exact (hg a).needed u t b hb position hmem

theorem Atomic.requires {x : Exec α} (hx : Atomic x) : Requires i [] x where
  faulty s t fault h harity := by
    rw [(hx s t fault h).2] at harity
    nomatch harity
  needed _ _ _ _ _ hmem := nomatch hmem

theorem requires_ask {f : State → Except Fault α} {position : Nat}
    (hvacant : i.get? position = none → ∀ s, f s = .error (.missingArgument i.opcode position))
    (hthere : (∃ a, i.get? position = some a) →
      ∀ s fault, f s = .error fault → fault.isArity = false) :
    Requires i [position] (ask f) := by
  cases hget : i.get? position with
  | none =>
    have hf := hvacant hget
    constructor
    · intro s t fault h _
      obtain ⟨he, -⟩ := ask_eq_error.mp h
      rw [hf s, Except.error.injEq] at he
      exact ⟨position, List.mem_singleton_self position, hget, he.symm⟩
    · intro s t a h
      obtain ⟨ha, -⟩ := ask_eq_ok.mp h
      rw [hf s] at ha
      nomatch ha
  | some a =>
    constructor
    · intro s t fault h harity
      obtain ⟨he, -⟩ := ask_eq_error.mp h
      rw [hthere ⟨a, hget⟩ s fault he] at harity
      nomatch harity
    · intro _ _ _ _ k hk
      rw [List.mem_singleton.mp hk, hget]
      rfl

theorem requires_diagnose (text : String) : Requires i [] (diagnose text) where
  faulty s t fault h harity := by
    rw [(diagnose_eq_error h).1] at harity
    nomatch harity
  needed _ _ _ _ _ hmem := nomatch hmem

end Exec

section Operands

variable {i : Instruction}

theorem operand_vacant {position : Nat} (h : i.get? position = none) :
    i.operand position = .error (.missingArgument i.opcode position) := by
  rw [Instruction.operand, h]

theorem requires_operandOf {α : Type} (kind : OperandKind α) (position : Nat) :
    Requires i [position] (ask fun _ => i.operandOf position kind) := by
  refine requires_ask ?_ fun hthere _ _ => isArity_operandOf hthere
  intro h _
  rw [Instruction.operandOf, operand_vacant h]
  rfl

theorem requires_target (p : Program) (position : Nat) :
    Requires i [position] (ask fun _ => target p i position) := by
  refine requires_ask ?_ fun hthere _ _ => isArity_target hthere
  intro h _
  rw [target, Instruction.labelAt, Instruction.operandOf, operand_vacant h]
  rfl

theorem requires_symbolBy {α : Type} (constant : Value → α)
    (find : State → Variable → Except Frames.Fault α) (position : Nat) :
    Requires i [position] (ask fun s => i.symbolBy position constant (find s)) := by
  refine requires_ask ?_ fun hthere _ _ => isArity_symbolBy hthere
  intro h _
  rw [Instruction.symbolBy, operand_vacant h]
  rfl

theorem requires_exitCode : Requires i [1] (ask fun s => s.exitCode i) := by
  refine requires_ask ?_ ?_
  · intro h _
    rw [State.exitCode, State.symbol, Instruction.symbolBy, operand_vacant h]
    rfl
  · intro hthere s fault
    refine isArity_exitCode ?_
    intro position hpos hle
    obtain rfl : position = 1 := Nat.le_antisymm hle hpos
    exact hthere

end Operands

/-- The positions up to the arity are looked at, all of them and no other. The operand of a label is
not: it was looked at when the program was made. -/
theorem perform_requires (p : Program) (i : Instruction) {action : Action}
    (hproceed : action ≠ .proceed) (hexit : action ≠ .exit) :
    Requires i (List.range' 1 action.operands) (perform p i action) := by
  have destination : Requires i [1] (ask fun _ => i.variableAt 1) := requires_operandOf _ 1
  have symbol (k : Nat) : Requires i [k] (ask fun s => s.symbol i k) :=
    requires_symbolBy id (fun s => s.frames.read) k
  have computed {α : Type} (result : Except Operation.Fault α) :
      Requires i [] (ask fun _ => compute i result) :=
    (atomic_ask fun _ _ => isArity_compute).requires
  have stored (v : Variable) (value : Value) : Requires i [] (store v value) :=
    (atomic_changeFrames _).requires
  have dropped (n : Nat) : Requires i [] (dropData n) := (total_modify _).atomic.requires
  have pushed (value : Value) : Requires i [] (pushData value) := (total_modify _).atomic.requires
  have gone (order : Order) : Requires i [] (goTo order) := (total_goTo order).atomic.requires
  have decided (c : Prop) [Decidable c] (order : Order) :
      Requires i [] (if c then goTo order else pure () : Exec Unit) := by
    split
    · exact gone order
    · exact (total_pure ()).atomic.requires
  cases action with
  | createFrame => exact (atomic_changeFrames fun fs => .ok fs.create).requires
  | pushFrame | popFrame => exact (atomic_changeFrames _).requires
  | declare => exact destination.bind fun v => (atomic_changeFrames _).requires
  | call =>
    refine (requires_target p 1).bind fun order => Atomic.requires (Total.atomic ?_)
    exact Total.bind (total_modify _) fun _ => total_goTo order
  | returnBack => exact (atomic_popCall.bind total_goTo).requires
  | jump => exact (requires_target p 1).bind gone
  | jumpIf equal =>
    refine (requires_target p 1).bind fun order => ?_
    refine (symbol 2).bind fun a => (symbol 3).bind fun b => ?_
    exact (computed _).bind fun result => decided _ order
  | move => exact destination.bind fun v => (symbol 2).bind fun a => stored v a
  | push => exact (symbol 1).bind pushed
  | pop =>
    refine destination.bind fun v => Atomic.requires ?_
    exact atomic_store_declared atomic_popData keepsFrames_popData
  | clear => exact (total_modify _).atomic.requires
  | binary op =>
    refine destination.bind fun v => ?_
    refine (symbol 2).bind fun a => (symbol 3).bind fun b => ?_
    exact (computed _).bind fun value => stored v value
  | unary op =>
    refine destination.bind fun v => (symbol 2).bind fun a => ?_
    exact (computed _).bind fun value => stored v value
  | setChar =>
    refine destination.bind fun v => ?_
    have read : Requires i [] (ask fun s => (s.frames.read v).mapError .frames) := by
      refine (atomic_ask fun s fault h => ?_).requires
      obtain ⟨d, -, rfl⟩ := mapError_eq_error.mp h
      rfl
    refine read.bind fun current => ?_
    refine (symbol 2).bind fun index => (symbol 3).bind fun replacement => ?_
    exact (computed _).bind fun value => stored v value
  | typeOf =>
    refine destination.bind fun v => ?_
    exact (requires_symbolBy some (fun s => s.frames.lookup) 2).bind fun a => stored v _
  | stackBinary op =>
    have top : Requires i [] (ask State.topTwo) := (atomic_ask fun _ _ => isArity_topTwo).requires
    refine top.bind fun (a, b) => (computed _).bind fun value => ?_
    exact (dropped 2).bind fun _ => pushed value
  | stackUnary op =>
    have top : Requires i [] (ask State.top) := (atomic_ask fun _ _ => isArity_top).requires
    refine top.bind fun a => (computed _).bind fun value => ?_
    exact (dropped 1).bind fun _ => pushed value
  | stackJumpIf equal =>
    have top : Requires i [] (ask State.topTwo) := (atomic_ask fun _ _ => isArity_topTwo).requires
    refine (requires_target p 1).bind fun order => top.bind fun (a, b) => ?_
    refine (computed _).bind fun result => (dropped 2).bind fun _ => ?_
    exact decided _ order
  | read =>
    refine destination.bind fun v => (requires_operandOf .type 2).bind fun requested => ?_
    split
    · exact (atomic_store_declared total_nextLine.atomic keepsFrames_nextLine).requires
    · exact (atomic_ask fun _ _ h => by injection h with h; exact h ▸ rfl).requires
  | write => exact (symbol 1).bind fun value => (atomic_emit _).requires
  | print => exact (symbol 1).bind fun value => requires_diagnose _
  | report =>
    have asked : Requires i [] (ask fun s => .ok s.report) := by
      refine (atomic_ask fun s fault h => ?_).requires
      nomatch h
    exact asked.bind requires_diagnose
  | proceed => exact absurd rfl hproceed
  | exit => exact absurd rfl hexit

def lookedAt (opcode : Opcode) : List Nat :=
  if opcode = .label then [] else List.range' 1 opcode.arity

theorem mem_lookedAt {opcode : Opcode} {position : Nat} (h : position ∈ lookedAt opcode) :
    1 ≤ position ∧ position ≤ opcode.arity := by
  unfold lookedAt at h
  split at h
  · nomatch h
  · rw [List.mem_range'_1] at h
    omega

theorem dispatch_requires (p : Program) (i : Instruction) :
    Requires i (lookedAt i.opcode) (dispatch p i) := by
  have ended {α : Type} (a : α) : Requires i [] (pure a : Exec α) :=
    (total_pure a).atomic.requires
  by_cases hexit : i.opcode = .exit
  · simp only [dispatch, hexit]
    exact requires_exitCode.bind fun code => ended _
  have hne : Action.ofOpcode i.opcode ≠ .exit := fun h => hexit (ofOpcode_injective h)
  rw [dispatch_of_ne_exit rfl hne]
  by_cases hlabel : i.opcode = .label
  · rw [hlabel]
    exact (ended ()).bind fun _ => ended _
  · have hproceed : Action.ofOpcode i.opcode ≠ .proceed := fun h => hlabel (ofOpcode_injective h)
    have hperform := perform_requires p i hproceed hne
    rw [operands_ofOpcode] at hperform
    rw [lookedAt, if_neg hlabel, ← List.append_nil (List.range' 1 _)]
    exact hperform.bind fun _ => ended _

/-- Carrying out the instruction comes to look at a position in this state: if there were nothing,
that is where it would end. -/
def LooksAt (p : Program) (i : Instruction) (s : State) (position : Nat) : Prop :=
  ∃ t, dispatch p (i.vacate position) s = (.error (.missingArgument i.opcode position), t)

section Accesses

variable {p : Program} {i : Instruction} {s t : State} {position : Nat}

theorem LooksAt.within_arity (h : LooksAt p i s position) :
    1 ≤ position ∧ position ≤ i.opcode.arity := by
  obtain ⟨t, ht⟩ := h
  obtain ⟨k, hk, -, hfault⟩ := (dispatch_requires p (i.vacate position)).faulty s t _ ht rfl
  rw [i.opcode_vacate] at hk hfault
  obtain rfl := (Fault.missingArgument.inj hfault).2
  exact mem_lookedAt hk

theorem exists_fault_of_vacate (hlabel : i.opcode ≠ .label) (hpos : 1 ≤ position)
    (hle : position ≤ i.opcode.arity) :
    ∃ fault t, dispatch p (i.vacate position) s = (.error fault, t) := by
  rcases hd : dispatch p (i.vacate position) s with ⟨fault | status, t⟩
  · exact ⟨fault, t, rfl⟩
  · have hmem : position ∈ lookedAt (i.vacate position).opcode := by
      rw [i.opcode_vacate, lookedAt, if_neg hlabel, List.mem_range'_1]
      omega
    have hthere := (dispatch_requires p _).needed s t status hd position hmem
    rw [i.get?_vacate_self] at hthere
    nomatch hthere

theorem isArity_of_dispatch (hgapless : i.Gapless) (hcount : i.operandCount = i.opcode.arity)
    {fault : Fault} (h : dispatch p i s = (.error fault, t)) : fault.isArity = false := by
  rw [← Bool.not_eq_true]
  intro harity
  obtain ⟨k, hk, hvacant, -⟩ := (dispatch_requires p i).faulty s t fault h harity
  have hthere := (hgapless.isSome_get? k).mpr (hcount ▸ mem_lookedAt hk)
  rw [hvacant] at hthere
  nomatch hthere

theorem step_of_few (hp : p.WellFormed) (hi : p.IsNext s.pc i) (hgapless : i.Gapless)
    (hfew : i.operandCount < i.opcode.arity) :
    (s.step p).1 = .error ⟨i.order, .missingArgument i.opcode (i.operandCount + 1)⟩ := by
  have hfault := hgapless.arityFault?_eq
  rw [if_pos hfew] at hfault
  rw [step_of_arityFault ((Program.after?_eq_some_iff hp).mpr hi) hfault]

theorem step_of_many (hp : p.WellFormed) (hi : p.IsNext s.pc i) (hgapless : i.Gapless)
    (hmany : i.opcode.arity < i.operandCount) :
    (s.step p).1 = .error ⟨i.order, .unexpectedArgument i.opcode (i.opcode.arity + 1)⟩ := by
  have hfault := hgapless.arityFault?_eq
  rw [if_neg (Nat.not_lt_of_gt hmany), if_pos hmany] at hfault
  rw [step_of_arityFault ((Program.after?_eq_some_iff hp).mpr hi) hfault]

end Accesses

/-- A step finds fault with the number of operands exactly if it is not the one in the table, and
names the first position where that shows. With the right number, carrying out an instruction comes
to look at none but its operands, and cannot do without any of them, labels apart. -/
theorem operands_as_in_table {p : Program} (hp : p.Reachable) (s : State) :
    ((∃ e, (s.step p).1 = .error e ∧ e.fault.isArity = true) ↔
      ∃ i, p.IsNext s.pc i ∧ i.operandCount ≠ i.opcode.arity) ∧
    (∀ i, p.IsNext s.pc i →
      (i.operandCount < i.opcode.arity →
        (s.step p).1 = .error ⟨i.order, .missingArgument i.opcode (i.operandCount + 1)⟩) ∧
      (i.opcode.arity < i.operandCount →
        (s.step p).1 = .error ⟨i.order, .unexpectedArgument i.opcode (i.opcode.arity + 1)⟩)) ∧
    ∀ i ∈ p.toList, i.operandCount = i.opcode.arity → ∀ t,
      (∀ position, LooksAt p i t position → (i.get? position).isSome) ∧
      (∀ fault u, dispatch p i t = (.error fault, u) → fault.isArity = false) ∧
      (i.opcode ≠ .label → ∀ position, (i.get? position).isSome →
        ∃ fault u, dispatch p (i.vacate position) t = (.error fault, u)) := by
  have hwell := Program.reachable_wellFormed hp
  have hgapless := (Program.admissible_toList hp).gapless
  have hfew {i : Instruction} (hi : p.IsNext s.pc i) :=
    step_of_few hwell hi (hgapless i hi.stored)
  have hmany {i : Instruction} (hi : p.IsNext s.pc i) :=
    step_of_many hwell hi (hgapless i hi.stored)
  refine ⟨⟨?_, ?_⟩, fun i hi => ⟨hfew hi, hmany hi⟩, ?_⟩
  · rintro ⟨e, he, harity⟩
    cases hafter : p.after? s.pc with
    | none =>
      rw [State.step, hafter] at he
      cases he
    | some i =>
      have hi := Program.isNext_of_after? hwell hafter
      refine ⟨i, hi, fun hcount => ?_⟩
      have hfits : i.arityFault? = none := by
        rw [(hgapless i hi.stored).arityFault?_eq, hcount]
        simp
      rw [step_eq_dispatch hafter hfits] at he
      obtain ⟨fault, hfault, rfl⟩ := mapError_eq_error.mp he
      rw [isArity_of_dispatch (hgapless i hi.stored) hcount (Prod.ext hfault rfl)] at harity
      cases harity
  · rintro ⟨i, hi, hcount⟩
    rcases Nat.lt_or_gt_of_ne hcount with hlt | hgt
    · exact ⟨_, hfew hi hlt, rfl⟩
    · exact ⟨_, hmany hi hgt, rfl⟩
  · intro i hi hcount t
    have hthere := (hgapless i hi).isSome_get?
    rw [hcount] at hthere
    refine ⟨fun position hlooks => (hthere position).mpr hlooks.within_arity, ?_, ?_⟩
    · exact fun fault u => isArity_of_dispatch (hgapless i hi) hcount
    · intro hlabel position hposition
      obtain ⟨hpos, hle⟩ := (hthere position).mp hposition
      exact exists_fault_of_vacate hlabel hpos hle

/-- A sum that lacks its last operand, and an output that has all. -/
theorem operands_as_in_table_sum :
    let one : Option Operand := some (.const (.int 1))
    let sum : Instruction :=
      { order := 3, opcode := .add, arg1 := some (.var ⟨.global, "x"⟩), arg2 := one }
    let output : Instruction := { order := 5, opcode := .write, arg1 := one }
    let p : Program := ⟨⟨[(3, sum), (5, output)]⟩, .empty, 5⟩
    p.Reachable ∧ (({} : State).step p).1 = .error ⟨3, .missingArgument .add 3⟩ ∧
      LooksAt p output {} 1 ∧ ∀ t position, LooksAt p output t position →
        (output.get? position).isSome := by
  intro one sum output p
  have hp : p.Reachable :=
    Program.reachable_ofInstructions (show Program.ofInstructions [output, sum] = .ok p from rfl)
  have hsum : p.IsNext 0 sum := Program.isNext_of_after? (Program.reachable_wellFormed hp) rfl
  obtain ⟨-, hnamed, hlooks⟩ := operands_as_in_table hp {}
  refine ⟨hp, (hnamed sum hsum).1 (by decide), ⟨_, rfl⟩, fun t => ?_⟩
  exact (hlooks output (by simp [p, Program.toList, Table.items]) rfl t).1

end Machine

end ThreeAddress
