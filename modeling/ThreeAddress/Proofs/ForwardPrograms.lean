import ThreeAddress.Proofs.ControlFlow
import ThreeAddress.Proofs.Padding
import ThreeAddress.Proofs.StoreInvariant

/-! Programs that only go forward. If there are no returns and every label that is named by a call
or a jump stands further on, then each step leaves fewer instructions ahead, so that a run comes to
its end. -/

namespace ThreeAddress

def Opcode.jumping : List Opcode := [.call, .jump, .jumpIfEq, .jumpIfNeq, .jumpIfEqS, .jumpIfNeqS]

/-- No instruction goes back: there are no returns, and a label that is gone to stands behind the
instruction that names it. -/
structure Program.Forward (p : Program) : Prop where
  neverReturns : ∀ i ∈ p.toList, i.opcode ≠ .returnBack
  ahead : ∀ i ∈ p.toList, i.opcode ∈ Opcode.jumping → ∀ name order,
    i.get? 1 = some (.label name) → p.resolve name = .ok order → i.order < order

namespace Program

variable {p : Program} {order later : Order}

theorem length_above_antitone (h : order ≤ later) :
    (p.above later).length ≤ (p.above order).length := by
  apply List.Sublist.length_le
  apply List.monotone_filter_right
  intro i hi
  simp only [decide_eq_true_eq] at hi ⊢
  exact Std.lt_of_le_of_lt h hi

/-- Past the next instruction there are fewer ahead. -/
theorem length_above_lt (hp : p.WellFormed) {i : Instruction} (hi : p.after? order = some i)
    (h : i.order ≤ later) : (p.above later).length < (p.above order).length := by
  rw [after?_eq_head? hp] at hi
  obtain ⟨rest, hrest⟩ : ∃ rest, p.above order = i :: rest := List.head?_eq_some_iff.mp hi
  have hlater := length_above_antitone (p := p) h
  rw [above_of_cons hp hrest] at hlater
  rw [hrest, List.length_cons]
  omega

end Program

namespace Machine

section Forward

variable {p : Program} {i : Instruction} {s : State}

theorem mem_jumping_of_jumps (h : s.Jumps i) : i.opcode ∈ Opcode.jumping := by
  rw [State.Jumps] at h
  cases hop : i.opcode <;> simp_all [Action.ofOpcode, Opcode.jumping]

theorem target_ahead (hforward : p.Forward) (hi : i ∈ p.toList) (hop : i.opcode ∈ Opcode.jumping)
    {order : Order} (h : target p i 1 = .ok order) : i.order < order := by
  obtain ⟨name, hname, h⟩ := bind_eq_ok.mp h
  rw [mapError_eq_ok] at h
  exact hforward.ahead i hi hop name order (Instruction.operandOf_eq_ok.mp hname) h

theorem step_forward (hp : p.WellFormed) (hforward : p.Forward) (hi : p.after? s.pc = some i) :
    i.order ≤ (s.step p).2.pc := by
  have hstored := (Program.isNext_of_after? hp hi).stored
  cases hstep : s.step p with
  | mk result t =>
    cases result with
    | error e => exact Std.le_of_eq (step_stays hi hstep).1.symm
    | ok status =>
      cases step_moves hi hstep with
      | proceeds _ _ hpc _ => exact Std.le_of_eq hpc.symm
      | jumps hjumps _ htarget _ =>
        have hop : i.opcode ∈ Opcode.jumping := mem_jumping_of_jumps hjumps
        exact Std.le_of_lt (target_ahead hforward hstored hop htarget)
      | calls hcall htarget _ =>
        have hop : i.opcode ∈ Opcode.jumping := by simp [hcall, Opcode.jumping]
        exact Std.le_of_lt (target_ahead hforward hstored hop htarget)
      | returns hreturn _ => exact absurd hreturn (hforward.neverReturns i hstored)

theorem pc_le_step (hp : p.WellFormed) (hforward : p.Forward) (s : State) :
    s.pc ≤ (s.step p).2.pc := by
  cases hi : p.after? s.pc with
  | none =>
    rw [State.step, hi]
    exact Std.le_refl _
  | some i =>
    have habove := (Program.isNext_of_after? hp hi).above
    exact Std.le_trans (Std.le_of_lt habove) (step_forward hp hforward hi)

theorem exists_after?_of_not_halted (h : ∀ code, (s.step p).1 ≠ .ok (.halted code)) :
    ∃ i, p.after? s.pc = some i := by
  cases hi : p.after? s.pc with
  | none =>
    apply absurd _ (h 0)
    rw [State.step, hi]
  | some i => exact ⟨i, rfl⟩

def State.fetches (p : Program) (n : Nat) (s : State) : List Instruction :=
  (s.visited p n).filterMap fun t => p.after? t.pc

theorem fetches_succ (n : Nat) : s.fetches p (n + 1) =
    (p.after? s.pc).toList ++ (s.step p).2.fetches p n := by
  rw [State.fetches, State.visited]
  cases h : p.after? s.pc <;> simp [State.fetches, h]

theorem order_of_mem_fetches (hp : p.WellFormed) (hforward : p.Forward) {n : Nat}
    (hi : i ∈ s.fetches p n) : s.pc < i.order := by
  induction n generalizing s with
  | zero => simp [State.fetches, State.visited] at hi
  | succ n ih =>
    rw [fetches_succ, List.mem_append, Option.mem_toList] at hi
    rcases hi with hi | hi
    · exact (Program.isNext_of_after? hp hi).above
    · exact Std.lt_of_le_of_lt (pc_le_step hp hforward s) (ih hi)

theorem fetches_ascending (hp : p.WellFormed) (hforward : p.Forward) (n : Nat) (s : State) :
    (s.fetches p n).Pairwise fun i j => i.order < j.order := by
  induction n generalizing s with
  | zero => exact .nil
  | succ n ih =>
    rw [fetches_succ]
    cases hi : p.after? s.pc with
    | none => exact ih _
    | some i =>
      refine .cons ?_ (ih _)
      intro j hj
      exact Std.lt_of_le_of_lt (step_forward hp hforward hi) (order_of_mem_fetches hp hforward hj)

/-- The instructions that are ahead bound the number of steps. -/
theorem advance_ends (hp : p.WellFormed) (hforward : p.Forward) {n : Nat}
    (h : (p.above s.pc).length < n) : (s.advance p n).1 ≠ .ok .running := by
  induction n generalizing s with
  | zero => omega
  | succ n ih =>
    by_cases hrunning : (s.step p).1 = .ok .running
    · rw [advance_succ_of_running hrunning]
      apply ih
      obtain ⟨i, hi⟩ := exists_after?_of_not_halted (p := p) (s := s) (by simp [hrunning])
      have hfewer := Program.length_above_lt hp hi (step_forward hp hforward hi)
      omega
    · rw [advance_succ_of_ne_running hrunning]
      exact hrunning

theorem exists_conclude {result : Except Failure Status} (h : result ≠ .ok .running) :
    ∃ outcome, s.conclude result = some outcome := by
  cases result with
  | error e => exact ⟨.error e, rfl⟩
  | ok status =>
    cases status with
    | running => exact absurd rfl h
    | halted code => exact ⟨s.flush.map fun _ => code, rfl⟩

end Forward

/-- In a program that only goes forward, each step that does not halt, failures included, ends at a
larger order, so that no instruction is fetched twice, and the run comes to its end within one step
more than there are instructions. -/
theorem forward_run_ends {p : Program} (hp : p.Reachable) (hforward : p.Forward) (input : Input)
    (output diagnostics : Gate) :
    let s := State.fresh input output diagnostics
    (∀ k, (∀ code, ((s.afterSteps p k).step p).1 ≠ .ok (.halted code)) →
      (s.afterSteps p k).pc < (s.afterSteps p (k + 1)).pc) ∧
    (∀ n, (s.fetches p n).Pairwise fun i j => i.order < j.order) ∧
    (s.advance p (p.instructions.size + 1)).1 ≠ .ok .running ∧
    ∃ outcome t, s.execute? p (p.instructions.size + 1) = some (outcome, t) := by
  intro s
  have hwell := Program.reachable_wellFormed hp
  have hended : (s.advance p (p.instructions.size + 1)).1 ≠ .ok .running := by
    apply advance_ends hwell hforward
    exact Nat.lt_succ_of_le (p.length_above_le s.pc)
  refine ⟨fun k hrunning => ?_, fun n => fetches_ascending hwell hforward n s, hended, ?_⟩
  · obtain ⟨i, hi⟩ := exists_after?_of_not_halted hrunning
    rw [afterSteps_succ]
    exact Std.lt_of_lt_of_le (Program.isNext_of_after? hwell hi).above
      (step_forward hwell hforward hi)
  · obtain ⟨outcome, houtcome⟩ := exists_conclude hended
    exact ⟨outcome, _, execute?_eq_some.mpr ⟨houtcome, rfl⟩⟩

/-- A call of what comes later, a jump that is taken, and the instructions that are passed over. -/
theorem forward_call_and_jump :
    let call : Instruction := { order := 2, opcode := .call, arg1 := some (.label "f") }
    let passed : Instruction := { order := 3, opcode := .write, arg1 := some (.const .nil) }
    let f : Instruction := { order := 5, opcode := .label, arg1 := some (.label "f") }
    let jump : Instruction := ⟨6, .jumpIfEq, some (.label "g"), some (.const (.int 1)),
      some (.const (.int 1))⟩
    let g : Instruction := { order := 9, opcode := .label, arg1 := some (.label "g") }
    let p : Program := ⟨⟨[(2, call), (3, passed), (5, f), (6, jump), (9, g)]⟩,
      ⟨[("f", 5), ("g", 9)]⟩, 9⟩
    p.Reachable ∧ p.Forward ∧
      ((State.fresh {} {} {}).afterSteps p 1).pc < ((State.fresh {} {} {}).afterSteps p 2).pc ∧
      ∃ outcome t, (State.fresh {} {} {}).execute? p 6 = some (outcome, t) := by
  intro call passed f jump g p
  have hp : p.Reachable := Program.reachable_ofInstructions
    (show Program.ofInstructions [g, jump, f, passed, call] = .ok p by decide +kernel)
  have hjumping : ∀ i ∈ p.toList, i.opcode ∈ Opcode.jumping → i = call ∨ i = jump := by decide
  have hforward : p.Forward := by
    refine ⟨by decide, fun i hi hop name order hname horder => ?_⟩
    rcases hjumping i hi hop with rfl | rfl
    · obtain rfl : "f" = name := by simpa [call, Instruction.get?] using hname
      obtain rfl : 5 = order := Except.ok.inj horder
      decide
    · obtain rfl : "g" = name := by simpa [jump, Instruction.get?] using hname
      obtain rfl : 9 = order := Except.ok.inj horder
      decide
  obtain ⟨hincreases, -, -, hexecutes⟩ := forward_run_ends hp hforward {} {} {}
  have hruns : (((State.fresh {} {} {}).afterSteps p 1).step p).1 = .ok .running := by
    decide +kernel
  refine ⟨hp, hforward, hincreases 1 ?_, hexecutes⟩
  rw [hruns]
  simp

end Machine

end ThreeAddress
