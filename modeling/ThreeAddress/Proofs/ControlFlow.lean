import ThreeAddress.Proofs.Footprint
import ThreeAddress.Proofs.StackFamily

/-! Where a run can go. A step goes on with the next instruction, or to the label that it names, or
back to a call, and nothing else writes the place or the stack of calls. So a run is always at an
instruction of the program, and a return comes back to the call that it belongs to, whatever happens
in between. -/

namespace ThreeAddress

def Program.IsCall (p : Program) (order : Order) : Prop :=
  ∃ i ∈ p.toList, i.opcode = .call ∧ i.order = order

theorem Program.IsCall.isPlace {p : Program} {order : Order} (h : p.IsCall order) :
    p.IsPlace order := by
  obtain ⟨i, hi, -, horder⟩ := h
  exact .inr ⟨i, hi, horder⟩

namespace Machine

open Exec

theorem Exec.apply_bind_eq_ok {α β : Type} {x : Exec α} {g : α → Exec β} {s t : State} {b : β} :
    (x >>= g) s = (.ok b, t) ↔ ∃ a u, x s = (.ok a, u) ∧ g a u = (.ok b, t) := by
  change Exec.bind x g s = _ ↔ _
  unfold Exec.bind
  split
  · rename_i a u hx
    constructor
    · intro h
      exact ⟨a, u, hx, h⟩
    · rintro ⟨c, v, hc, h⟩
      rw [hx, Prod.mk.injEq, Except.ok.injEq] at hc
      obtain ⟨rfl, rfl⟩ := hc
      exact h
  · rename_i fault u hx
    simp [hx]

theorem Exec.ask_bind_eq_ok {α β : Type} {f : State → Except Fault α} {g : α → Exec β}
    {s t : State} {b : β} :
    (ask f >>= g) s = (.ok b, t) ↔ ∃ a, f s = .ok a ∧ g a s = (.ok b, t) := by
  rw [apply_bind_eq_ok]
  constructor
  · rintro ⟨a, u, hu, h⟩
    obtain ⟨ha, rfl⟩ := ask_eq_ok.mp hu
    exact ⟨a, ha, h⟩
  · rintro ⟨a, ha, h⟩
    exact ⟨a, s, ask_eq_ok.mpr ⟨ha, rfl⟩, h⟩

/-- The instruction is one that goes to its label in this state: a call, a jump, or a conditional
jump whose operands compare as it asks. -/
def State.Jumps (s : State) (i : Instruction) : Prop :=
  match Action.ofOpcode i.opcode with
  | .call | .jump => True
  | .jumpIf equal => ∃ a b, s.symbol i 2 = .ok a ∧ s.symbol i 3 = .ok b ∧
      Operation.equals a b = .ok equal
  | .stackJumpIf equal => ∃ a b, s.topTwo = .ok (a, b) ∧ Operation.equals a b = .ok equal
  | _ => False

/-- What an instruction that succeeds does to the place and to the calls. -/
inductive Moves (p : Program) (i : Instruction) (s t : State) : Prop where
  | proceeds : ¬ s.Jumps i → i.opcode ≠ .returnBack → t.pc = s.pc → t.calls = s.calls →
      Moves p i s t
  | jumps : s.Jumps i → i.opcode ≠ .call → target p i 1 = .ok t.pc → t.calls = s.calls →
      Moves p i s t
  | calls : i.opcode = .call → target p i 1 = .ok t.pc → t.calls = s.pc :: s.calls →
      Moves p i s t
  | returns : i.opcode = .returnBack → s.calls = t.pc :: t.calls → Moves p i s t

section Moves

variable {p : Program} {i : Instruction} {s t : State}

theorem ofOpcode_eq_call {opcode : Opcode} : Action.ofOpcode opcode = .call ↔ opcode = .call := by
  cases opcode <;> simp [Action.ofOpcode]

theorem ofOpcode_eq_returnBack {opcode : Opcode} :
    Action.ofOpcode opcode = .returnBack ↔ opcode = .returnBack := by
  cases opcode <;> simp [Action.ofOpcode]

theorem moves_of_untouched {action : Action} (ha : Action.ofOpcode i.opcode = action)
    (hplace : Part.place ∉ action.touched) (hcalls : Part.calls ∉ action.touched)
    (h : perform p i action s = (.ok (), t)) : Moves p i s t := by
  have hreturn : i.opcode ≠ .returnBack := by
    rw [Ne, ← ofOpcode_eq_returnBack, ha]
    rintro rfl
    simp [Action.touched] at hplace
  have hjumps : ¬ s.Jumps i := by
    rw [State.Jumps, ha]
    cases action <;> simp_all [Action.touched]
  have hpc : Part.place.Same s (perform p i action s).2 := perform_keeps hplace s
  have hstack : Part.calls.Same s (perform p i action s).2 := perform_keeps hcalls s
  rw [h] at hpc hstack
  exact .proceeds hjumps hreturn hpc hstack

theorem moves_goToIf {equal result : Bool} {order : Order} {u : State}
    (h : (if result = equal then goTo order else pure () : Exec Unit) u = (.ok (), t))
    (hpc : u.pc = s.pc) (hcalls : u.calls = s.calls) (hcall : i.opcode ≠ .call)
    (hreturn : i.opcode ≠ .returnBack) (horder : target p i 1 = .ok order)
    (hjumps : s.Jumps i ↔ result = equal) : Moves p i s t := by
  by_cases hresult : result = equal
  · rw [if_pos hresult] at h
    obtain rfl : { u with pc := order } = t := congrArg Prod.snd h
    exact .jumps (hjumps.mpr hresult) hcall horder hcalls
  · rw [if_neg hresult] at h
    obtain rfl : u = t := congrArg Prod.snd h
    exact .proceeds (fun hj => hresult (hjumps.mp hj)) hreturn hpc hcalls

theorem perform_moves {action : Action} (ha : Action.ofOpcode i.opcode = action)
    (h : perform p i action s = (.ok (), t)) : Moves p i s t := by
  have hcall (hne : action ≠ .call) : i.opcode ≠ .call := by
    rw [Ne, ← ofOpcode_eq_call, ha]
    exact hne
  have hreturn (hne : action ≠ .returnBack) : i.opcode ≠ .returnBack := by
    rw [Ne, ← ofOpcode_eq_returnBack, ha]
    exact hne
  cases action with
  | call =>
    obtain ⟨order, horder, h⟩ := ask_bind_eq_ok.mp h
    obtain rfl : { s with calls := s.pc :: s.calls, pc := order } = t := congrArg Prod.snd h
    exact .calls (ofOpcode_eq_call.mp ha) horder rfl
  | returnBack =>
    obtain ⟨order, u, hu, h⟩ := apply_bind_eq_ok.mp h
    obtain rfl : { u with pc := order } = t := congrArg Prod.snd h
    unfold popCall at hu
    split at hu
    · rename_i top rest hcalls
      rw [Prod.mk.injEq, Except.ok.injEq] at hu
      obtain ⟨rfl, rfl⟩ := hu
      exact .returns (ofOpcode_eq_returnBack.mp ha) hcalls
    · simp at hu
  | jump =>
    obtain ⟨order, horder, h⟩ := ask_bind_eq_ok.mp h
    obtain rfl : { s with pc := order } = t := congrArg Prod.snd h
    exact .jumps (by simp [State.Jumps, ha]) (hcall nofun) horder rfl
  | jumpIf equal =>
    obtain ⟨order, horder, h⟩ := ask_bind_eq_ok.mp h
    obtain ⟨a, hsymbol₂, h⟩ := ask_bind_eq_ok.mp h
    obtain ⟨b, hsymbol₃, h⟩ := ask_bind_eq_ok.mp h
    obtain ⟨result, hresult, h⟩ := ask_bind_eq_ok.mp h
    have hresult : Operation.equals a b = .ok result := mapError_eq_ok.mp hresult
    refine moves_goToIf h rfl rfl (hcall nofun) (hreturn nofun) horder ?_
    simp [State.Jumps, ha, hsymbol₂, hsymbol₃, hresult]
  | stackJumpIf equal =>
    obtain ⟨order, horder, h⟩ := ask_bind_eq_ok.mp h
    obtain ⟨⟨a, b⟩, htop, h⟩ := ask_bind_eq_ok.mp h
    obtain ⟨result, hresult, h⟩ := ask_bind_eq_ok.mp h
    obtain ⟨_, u, hu, h⟩ := apply_bind_eq_ok.mp h
    obtain rfl : { s with data := s.data.drop 2 } = u := congrArg Prod.snd hu
    have hresult : Operation.equals a b = .ok result := mapError_eq_ok.mp hresult
    refine moves_goToIf h rfl rfl (hcall nofun) (hreturn nofun) horder ?_
    simp only [State.Jumps, ha, htop, Except.ok.injEq, Prod.mk.injEq]
    constructor
    · rintro ⟨_, _, ⟨rfl, rfl⟩, hequal⟩
      exact Except.ok.inj (hresult.symm.trans hequal)
    · rintro rfl
      exact ⟨a, b, ⟨rfl, rfl⟩, hresult⟩
  | _ => exact moves_of_untouched ha (by simp [Action.touched]) (by simp [Action.touched]) h

/-- An exit leaves the state alone, as its action does, so that every instruction that succeeds has
done what its action does. -/
theorem perform_of_dispatch {status : Status} (h : dispatch p i s = (.ok status, t)) :
    perform p i (Action.ofOpcode i.opcode) s = (.ok (), t) := by
  by_cases ha : Action.ofOpcode i.opcode = .exit
  · simp only [dispatch, ha] at h
    obtain ⟨code, -, h⟩ := ask_bind_eq_ok.mp h
    obtain rfl : s = t := congrArg Prod.snd h
    rw [ha]
    rfl
  · rw [dispatch_of_ne_exit rfl ha] at h
    obtain ⟨_, u, hu, h⟩ := apply_bind_eq_ok.mp h
    obtain rfl : u = t := congrArg Prod.snd h
    exact hu

theorem perform_of_step {status : Status} (hi : p.after? s.pc = some i)
    (h : s.step p = (.ok status, t)) :
    perform p i (Action.ofOpcode i.opcode) (fetched s i.order) = (.ok (), t) := by
  rw [State.step, hi] at h
  dsimp only at h
  split at h
  · cases h
  · rw [Prod.mk.injEq, mapError_eq_ok] at h
    exact perform_of_dispatch (Prod.ext h.1 h.2)

theorem step_moves {status : Status} (hi : p.after? s.pc = some i)
    (h : s.step p = (.ok status, t)) : Moves p i (fetched s i.order) t :=
  perform_moves rfl (perform_of_step hi h)

theorem step_of_arityFault {fault : Fault} (hi : p.after? s.pc = some i)
    (hfault : i.arityFault? = some fault) :
    s.step p = (.error ⟨i.order, fault⟩, { s with pc := i.order }) := by
  rw [State.step, hi]
  simp [hfault]

theorem step_fails {e : Failure} (hi : p.after? s.pc = some i) (h : (s.step p).1 = .error e) :
    ∃ executed channel, (s.step p).2 =
      { s with pc := i.order, executed := executed, diagnostics := channel } := by
  rw [State.step, hi] at h ⊢
  dsimp only at h ⊢
  split at h
  · exact ⟨s.executed, s.diagnostics, rfl⟩
  · rename_i harity
    obtain ⟨fault, hfault, -⟩ := mapError_eq_error.mp h
    obtain ⟨-, ⟨channel, ht⟩, -, -⟩ := dispatch_eq_error harity (Prod.ext hfault rfl)
    exact ⟨s.executed + 1, channel, ht⟩

theorem step_stays {e : Failure} (hi : p.after? s.pc = some i) (h : s.step p = (.error e, t)) :
    t.pc = i.order ∧ t.calls = s.calls := by
  obtain ⟨_, _, ht⟩ := step_fails hi (congrArg Prod.fst h)
  rw [h] at ht
  rw [show t = _ from ht]
  exact ⟨rfl, rfl⟩

end Moves

/-! Places. -/

section Places

variable {p : Program} (hp : p.Reachable) {i : Instruction} {s t : State}

include hp

theorem exists_label_of_target {order : Order} (h : target p i 1 = .ok order) :
    ∃ name l, i.get? 1 = some (.label name) ∧ l ∈ p.toList ∧ l.Declares name ∧ l.order = order := by
  obtain ⟨name, hname, h⟩ := bind_eq_ok.mp h
  rw [mapError_eq_ok, Program.resolve_eq_ok_iff hp] at h
  obtain ⟨l, hl, hdeclared, horder⟩ := h
  exact ⟨name, l, Instruction.operandOf_eq_ok.mp hname, hl,
    Instruction.declaredLabel?_eq_some.mp hdeclared, horder⟩

/-- All places that the state knows of are places of the program. -/
structure Located (p : Program) (s : State) : Prop where
  place : p.IsPlace s.pc
  calls : ∀ order ∈ s.calls, p.IsCall order

theorem step_located (h : Located p s) : Located p (s.step p).2 := by
  cases hi : p.after? s.pc with
  | none =>
    rw [State.step, hi]
    exact h
  | some i =>
    have hstored := (Program.isNext_of_after? (Program.reachable_wellFormed hp) hi).stored
    have hplace : p.IsPlace i.order := .inr ⟨i, hstored, rfl⟩
    cases hstep : s.step p with
    | mk result t =>
      cases result with
      | error e =>
        obtain ⟨hpc, hcalls⟩ := step_stays hi hstep
        exact ⟨hpc ▸ hplace, hcalls ▸ h.calls⟩
      | ok status =>
        cases step_moves hi hstep with
        | proceeds _ _ hpc hcalls => exact ⟨hpc ▸ hplace, hcalls ▸ h.calls⟩
        | jumps _ _ htarget hcalls =>
          obtain ⟨name, l, -, hl, -, horder⟩ := exists_label_of_target hp htarget
          exact ⟨.inr ⟨l, hl, horder⟩, hcalls ▸ h.calls⟩
        | calls hcall htarget hcalls =>
          obtain ⟨name, l, -, hl, -, horder⟩ := exists_label_of_target hp htarget
          refine ⟨.inr ⟨l, hl, horder⟩, ?_⟩
          rw [hcalls]
          exact List.forall_mem_cons.mpr ⟨⟨i, hstored, hcall, rfl⟩, h.calls⟩
        | returns _ hcalls =>
          have hall := h.calls
          rw [show s.calls = t.pc :: t.calls from hcalls, List.forall_mem_cons] at hall
          exact ⟨hall.1.isPlace, hall.2⟩

theorem afterSteps_located (h : Located p s) (n : Nat) : Located p (s.afterSteps p n) := by
  induction n generalizing s with
  | zero => exact h
  | succ n ih => exact ih (step_located hp h)

end Places

/-- A run is at the start or at an instruction, and all that it can return to are calls. A return
goes on after one of them, and a jump or a call goes on after the label that it names. -/
theorem run_located {p : Program} (hp : p.Reachable) (input : Input) (output diagnostics : Gate)
    (n : Nat) :
    let s := (State.fresh input output diagnostics).afterSteps p n
    p.IsPlace s.pc ∧ (∀ order ∈ s.calls, p.IsCall order) ∧
    ∀ i status t, p.after? s.pc = some i → s.step p = (.ok status, t) →
      (i.opcode = .returnBack → ∃ call ∈ p.toList, call.opcode = .call ∧ t.pc = call.order ∧
        ∀ j, p.after? t.pc = some j ↔ p.IsNext call.order j) ∧
      (s.Jumps i → ∃ name, i.get? 1 = some (.label name) ∧ ∃ label ∈ p.toList,
        label.Declares name ∧ t.pc = label.order ∧
        ∀ j, p.after? t.pc = some j ↔ p.IsNext label.order j) := by
  intro s
  have hs : Located p s := afterSteps_located hp ⟨.inl rfl, by simp [State.fresh]⟩ n
  have hnext {order place : Order} (h : place = order) (j : Instruction) :
      p.after? place = some j ↔ p.IsNext order j := by
    rw [h]
    exact Program.after?_eq_some_iff (Program.reachable_wellFormed hp)
  refine ⟨hs.place, hs.calls, fun i status t hi hstep => ⟨fun hreturn => ?_, fun hjumps => ?_⟩⟩
  · cases step_moves hi hstep with
    | proceeds _ hne => exact absurd hreturn hne
    | jumps hjumps => simp [State.Jumps, hreturn, Action.ofOpcode] at hjumps
    | calls hcall => simp [hreturn] at hcall
    | returns _ hcalls =>
      have hlatest : t.pc ∈ s.calls := by simp [show s.calls = t.pc :: t.calls from hcalls]
      obtain ⟨call, hcall, hop, horder⟩ := hs.calls t.pc hlatest
      exact ⟨call, hcall, hop, horder.symm, hnext horder.symm⟩
  · have htarget : target p i 1 = .ok t.pc := by
      cases step_moves hi hstep with
      | proceeds hstays => exact absurd hjumps hstays
      | jumps _ _ htarget => exact htarget
      | calls _ htarget => exact htarget
      | returns hreturn => simp [State.Jumps, hreturn, Action.ofOpcode] at hjumps
    obtain ⟨name, label, hname, hlabel, hdeclares, horder⟩ := exists_label_of_target hp htarget
    exact ⟨name, hname, label, hlabel, hdeclares, horder.symm, hnext horder.symm⟩

/-- A call goes on after its label, and the return after the call. -/
theorem run_located_call_and_return :
    let call : Instruction := { order := 2, opcode := .call, arg1 := some (.label "f") }
    let label : Instruction := { order := 6, opcode := .label, arg1 := some (.label "f") }
    let back : Instruction := { order := 8, opcode := .returnBack }
    let p : Program := ⟨⟨[(2, call), (6, label), (8, back)]⟩, ⟨[("f", 6)]⟩, 8⟩
    let s : State := (State.fresh {} {} {}).afterSteps p 1
    p.Reachable ∧ s.calls = [2] ∧ p.IsCall 2 ∧ p.IsNext 6 back ∧
      ∃ order, p.IsCall order ∧ p.IsNext order label := by
  intro call label back p s
  have hread : Program.ofInstructions [back, call, label] = .ok p := rfl
  have hp : p.Reachable := Program.reachable_ofInstructions hread
  have hstart := run_located hp {} {} {} 0
  have hinside := run_located hp {} {} {} 1
  obtain ⟨name, -, l, -, -, hpc, hafter⟩ := (hstart.2.2 call .running s rfl rfl).2 trivial
  obtain ⟨c, hc, hop, hpc', hafter'⟩ := (hinside.2.2 back .running _ rfl rfl).1 rfl
  refine ⟨hp, rfl, hinside.2.1 2 (.head _), ?_, c.order, ⟨c, hc, hop, rfl⟩, (hafter' label).mp rfl⟩
  have hnext := (hafter back).mp rfl
  rwa [← hpc] at hnext

/-! Calls and their returns. -/

section Calls

variable {p : Program} {s : State}

/-- A step keeps the calls, adds one to them, or is a return from the latest of them. -/
theorem step_calls (p : Program) (s : State) :
    (s.step p).2.calls = s.calls ∨ (∃ order, (s.step p).2.calls = order :: s.calls) ∨
      ∃ i status, p.after? s.pc = some i ∧ i.opcode = .returnBack ∧ (s.step p).1 = .ok status ∧
        s.calls = (s.step p).2.pc :: (s.step p).2.calls := by
  cases hi : p.after? s.pc with
  | none =>
    rw [State.step, hi]
    exact .inl rfl
  | some i =>
    cases hstep : s.step p with
    | mk result t =>
      cases result with
      | error e => exact .inl (step_stays hi hstep).2
      | ok status =>
        cases step_moves hi hstep with
        | proceeds _ _ _ hcalls => exact .inl hcalls
        | jumps _ _ _ hcalls => exact .inl hcalls
        | calls _ _ hcalls => exact .inr (.inl ⟨_, hcalls⟩)
        | returns hreturn hcalls => exact .inr (.inr ⟨i, status, rfl, hreturn, rfl, hcalls⟩)

theorem step_suffix {bottom : List Order} (h : bottom <:+ s.calls)
    (hlength : bottom.length ≤ (s.step p).2.calls.length) : bottom <:+ (s.step p).2.calls := by
  rcases step_calls p s with hcalls | ⟨order, hcalls⟩ | ⟨i, status, -, -, -, hcalls⟩
  · rwa [hcalls]
  · rw [hcalls]
    exact h.trans (List.suffix_cons order s.calls)
  · rw [hcalls] at h
    rcases List.suffix_cons_iff.mp h with heq | h
    · have hcount := congrArg List.length heq
      rw [List.length_cons] at hcount
      omega
    · exact h

theorem afterSteps_succ (p : Program) (n : Nat) (s : State) :
    s.afterSteps p (n + 1) = ((s.afterSteps p n).step p).2 := by
  induction n generalizing s with
  | zero => rfl
  | succ n ih => exact ih (s.step p).2

theorem visited_succ (p : Program) (n : Nat) (s : State) :
    s.visited p (n + 1) = s.visited p n ++ [s.afterSteps p n] := by
  induction n generalizing s with
  | zero => rfl
  | succ n ih => exact congrArg (s :: ·) (ih (s.step p).2)

theorem filterMap_visited_succ {α : Type} (f : State → Option α) (p : Program) (n : Nat)
    (s : State) : (s.visited p (n + 1)).filterMap f =
      (s.visited p n).filterMap f ++ (f (s.afterSteps p n)).toList := by
  rw [visited_succ, List.filterMap_append]
  cases h : f (s.afterSteps p n) <;> simp [h]

theorem afterSteps_suffix {bottom : List Order} (h : bottom <:+ s.calls) (n : Nat)
    (hlength : ∀ k ≤ n, bottom.length ≤ (s.afterSteps p k).calls.length) :
    bottom <:+ (s.afterSteps p n).calls := by
  induction n with
  | zero => exact h
  | succ n ih =>
    have hlast := hlength (n + 1) (Nat.le_refl _)
    rw [afterSteps_succ] at hlast ⊢
    exact step_suffix (ih fun k hk => hlength k (by omega)) hlast

end Calls

/-- The first step after a call that takes the calls back to their number before it is a return, and
that return goes to this call, with the calls as they were. What happens in between is free: other
calls and returns, jumps, failures. -/
theorem return_to_call {p : Program} {s : State} {i : Instruction} {n : Nat}
    (hi : p.after? s.pc = some i) (hcall : i.opcode = .call) (hok : (s.step p).1 = .ok .running)
    (hinside : ∀ k ≤ n, s.calls.length + 1 ≤ ((s.step p).2.afterSteps p k).calls.length)
    (hback : ((s.step p).2.afterSteps p (n + 1)).calls.length = s.calls.length) :
    let u := (s.step p).2.afterSteps p n
    let t := (s.step p).2.afterSteps p (n + 1)
    (∃ j status, p.after? u.pc = some j ∧ j.opcode = .returnBack ∧ (u.step p).1 = .ok status) ∧
      t.calls = s.calls ∧ t.pc = i.order ∧ p.after? t.pc = p.after? i.order := by
  intro u t
  have hstart : (s.step p).2.calls = i.order :: s.calls := by
    cases step_moves hi (Prod.ext hok rfl) with
    | proceeds hstays => simp [State.Jumps, hcall, Action.ofOpcode] at hstays
    | jumps _ hne => exact absurd hcall hne
    | calls _ _ hcalls => exact hcalls
    | returns hreturn => simp [hcall] at hreturn
  have hbottom : (i.order :: s.calls) <:+ u.calls := by
    apply afterSteps_suffix
    · exact ⟨[], hstart.symm⟩
    · exact hinside
  have hu : s.calls.length + 1 ≤ u.calls.length := hinside n (Nat.le_refl n)
  have ht : t = (u.step p).2 := afterSteps_succ p n (s.step p).2
  rw [show (s.step p).2.afterSteps p (n + 1) = t from rfl, ht] at hback
  rw [ht]
  rcases step_calls p u with hcalls | ⟨order, hcalls⟩ | ⟨j, status, hj, hreturn, hstatus, hcalls⟩
  · rw [hcalls] at hback
    omega
  · rw [hcalls, List.length_cons] at hback
    omega
  · have hsame : i.order :: s.calls = u.calls := by
      apply hbottom.eq_of_length
      rw [hcalls, List.length_cons, List.length_cons, hback]
    rw [hcalls, List.cons.injEq] at hsame
    obtain ⟨hpc, hrest⟩ := hsame
    exact ⟨⟨j, status, hj, hreturn, hstatus⟩, hrest.symm, hpc.symm, by rw [← hpc]⟩

/-- A call inside the call and an instruction that fails there do not lead the return astray. -/
theorem return_to_outer_call :
    let call : Instruction := { order := 2, opcode := .call, arg1 := some (.label "f") }
    let p : Program := ⟨⟨[
      (2, call),
      (10, { order := 10, opcode := .label, arg1 := some (.label "f") }),
      (11, { order := 11, opcode := .call, arg1 := some (.label "g") }),
      (12, { order := 12, opcode := .returnBack }),
      (20, { order := 20, opcode := .label, arg1 := some (.label "g") }),
      (21, { order := 21, opcode := .popS, arg1 := some (.var ⟨.global, "x"⟩) }),
      (22, { order := 22, opcode := .returnBack })]⟩, ⟨[("f", 10), ("g", 20)]⟩, 22⟩
    let s : State := .fresh {} {} {}
    let inside (k : Nat) : State := (s.step p).2.afterSteps p k
    (inside 2).calls = [11, 2] ∧ (inside 4).calls = s.calls ∧ (inside 4).pc = 2 := by
  intro call p s inside
  have hi : p.after? s.pc = some call := by decide +kernel
  have hok : (s.step p).1 = .ok .running := by decide +kernel
  have hinside : ∀ k ≤ 3, s.calls.length + 1 ≤ (inside k).calls.length := by decide +kernel
  have hback : (inside 4).calls.length = s.calls.length := by decide +kernel
  obtain ⟨-, hcalls, hpc, -⟩ := return_to_call hi rfl hok hinside hback
  exact ⟨by decide +kernel, hcalls, hpc⟩

end Machine

end ThreeAddress
