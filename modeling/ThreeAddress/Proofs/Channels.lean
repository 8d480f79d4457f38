import ThreeAddress.Proofs.FrameEffects

/-! What the channels record. The output and the diagnostics hold the texts that the instructions
wrote, in the order of the steps, and the lines of the input go to the readings one by one. An
instruction that fails takes no line and leaves nothing in the output; diagnostics that were taken
stay even if the flush after them is refused. -/

namespace ThreeAddress

namespace Input

def afterCalls : Nat → Input → Input
  | 0, input => input
  | k + 1, input => input.next.2.afterCalls k

/-- The result of a call, the first one being number 0. -/
def result (input : Input) (k : Nat) : Option String := (input.afterCalls k).next.1

end Input

namespace Channel

def append (c : Channel) (text : String) : Channel := { c with taken := c.taken ++ text }

@[simp]
theorem append_empty (c : Channel) : c.append "" = c := by simp [append]

theorem append_append (c : Channel) (earlier later : String) :
    (c.append earlier).append later = c.append (earlier ++ later) := by
  simp [append, String.append_assoc]

theorem eq_append_of_write {c d : Channel} {time : Nat} {text : String}
    (h : c.write time text = .ok d) : d = c.append text := by
  obtain ⟨taken, gate⟩ := d
  obtain ⟨rfl, rfl⟩ := Machine.write_eq_ok h
  rfl

end Channel

namespace Machine

open Exec

namespace State

def nextOpcode? (p : Program) (s : State) : Option Opcode :=
  (p.after? s.pc).map Instruction.opcode

/-- The instruction that the next step carries out, provided that the machine goes on after it. -/
def continued? (p : Program) (s : State) : Option Instruction :=
  if (s.step p).1 = .ok .running then p.after? s.pc else none

def written? (p : Program) (s : State) : Option String := do
  let i ← s.continued? p
  if i.opcode = .write then (s.symbol i 1).toOption.map Value.render else none

def accepted? (s : State) (i : Instruction) : Option String := do
  let text ← s.diagnosticText? i
  (s.diagnostics.write s.executed text).toOption.map fun _ => text

def diagnosed? (p : Program) (s : State) : Option String := do
  let i ← p.after? s.pc
  if i.arityFault? = none then (fetched s i.order).accepted? i else none

/-- The next step reads a line and the machine goes on. -/
def Reads (p : Program) (s : State) : Prop :=
  (s.continued? p).map Instruction.opcode = some .read

instance (p : Program) (s : State) : Decidable (s.Reads p) :=
  inferInstanceAs (Decidable (_ = _))

/-- The states from which the readings among the first `n` steps start. -/
def readings (p : Program) (n : Nat) (s : State) : List State :=
  (s.visited p n).filter fun u => u.Reads p

end State

section Steps

variable {p : Program} {i : Instruction} {s t : State}

theorem continued?_eq_some :
    s.continued? p = some i ↔ (s.step p).1 = .ok .running ∧ p.after? s.pc = some i := by
  simp [State.continued?]

theorem continued?_eq_none {e : Failure} (h : (s.step p).1 = .error e) : s.continued? p = none := by
  simp [State.continued?, h]

/-- The machine goes on after every instruction that does not fail, but for an exit. -/
theorem continues_or_fails (hi : p.after? s.pc = some i) (hop : i.opcode ≠ .exit) :
    s.continued? p = some i ∨ ∃ e, (s.step p).1 = .error e := by
  cases harity : i.arityFault? with
  | some fault => exact .inr ⟨_, congrArg Prod.fst (step_of_arityFault hi harity)⟩
  | none =>
    have hne : Action.ofOpcode i.opcode ≠ .exit := fun ha => hop (ofOpcode_injective ha)
    have hstep := step_eq_perform hi harity rfl hne
    rcases hperform : perform p i (Action.ofOpcode i.opcode) (fetched s i.order) with ⟨fault | _, t⟩
    · rw [hperform] at hstep
      exact .inr ⟨_, congrArg Prod.fst hstep⟩
    · rw [hperform] at hstep
      exact .inl (continued?_eq_some.mpr ⟨congrArg Prod.fst hstep, hi⟩)

theorem step_snd_of_fits (hi : p.after? s.pc = some i) (hfits : i.arityFault? = none)
    (hop : i.opcode ≠ .exit) :
    (s.step p).2 = (perform p i (Action.ofOpcode i.opcode) (fetched s i.order)).2 := by
  have hne : Action.ofOpcode i.opcode ≠ .exit := fun ha => hop (ofOpcode_injective ha)
  rw [step_eq_perform hi hfits rfl hne]
  rcases perform p i (Action.ofOpcode i.opcode) (fetched s i.order) with ⟨_ | _, t⟩ <;> rfl

theorem output_touched_iff (opcode : Opcode) :
    Part.output ∈ (Action.ofOpcode opcode).touched ↔ opcode = .write := by
  cases opcode <;> decide

theorem diagnostics_touched_iff (opcode : Opcode) :
    Part.diagnostics ∈ (Action.ofOpcode opcode).touched ↔
      opcode = .dPrint ∨ opcode = .breakpoint := by
  cases opcode <;> decide

theorem input_touched_iff (opcode : Opcode) :
    Part.input ∈ (Action.ofOpcode opcode).touched ↔ opcode = .read := by
  cases opcode <;> decide

theorem nextOpcode?_eq_some (hi : p.after? s.pc = some i) : s.nextOpcode? p = some i.opcode := by
  rw [State.nextOpcode?, hi]
  rfl

/-! The output. -/

theorem output_kept (h : s.nextOpcode? p ≠ some .write) : (s.step p).2.output = s.output := by
  have hsame : Part.output.Same s (s.step p).2 := by
    apply step_same (by decide)
    intro i hi htouched
    rw [nextOpcode?_eq_some hi] at h
    exact h (congrArg some ((output_touched_iff i.opcode).mp htouched))
  exact hsame

theorem emit_eq_ok {text : String} (h : emit text s = (.ok (), t)) :
    t.output = s.output.append text := by
  unfold emit at h
  split at h
  · rename_i channel hwrite
    obtain rfl : { s with output := channel } = t := congrArg Prod.snd h
    exact Channel.eq_append_of_write hwrite
  · cases h

theorem step_output (p : Program) (s : State) :
    (s.step p).2.output = s.output.append ((s.written? p).getD "") := by
  by_cases hnext : s.nextOpcode? p = some .write
  · obtain ⟨i, hi, hop⟩ := Option.map_eq_some_iff.mp hnext
    rcases continues_or_fails hi (by simp [hop]) with hc | ⟨e, he⟩
    · have hstep := perform_of_step hi (Prod.ext (continued?_eq_some.mp hc).1 rfl)
      rw [hop] at hstep
      obtain ⟨value, hvalue, hemit⟩ := ask_bind_eq_ok.mp hstep
      have hsymbol : s.symbol i 1 = .ok value := hvalue
      have hwritten : s.written? p = some value.render := by
        simp [State.written?, hc, hop, hsymbol, Except.toOption]
      rw [hwritten, emit_eq_ok hemit]
      rfl
    · obtain ⟨_, _, ht⟩ := step_fails hi he
      have hwritten : s.written? p = none := by simp [State.written?, continued?_eq_none he]
      simp [ht, hwritten]
  · have hwritten : s.written? p = none := by
      cases hc : s.continued? p with
      | none => simp [State.written?, hc]
      | some i =>
        rw [nextOpcode?_eq_some (continued?_eq_some.mp hc).2, Option.some.injEq] at hnext
        simp [State.written?, hc, hnext]
    rw [output_kept hnext, hwritten]
    exact (Channel.append_empty _).symm

/-! The diagnostics. -/

theorem diagnostics_kept (hprint : s.nextOpcode? p ≠ some .dPrint)
    (hreport : s.nextOpcode? p ≠ some .breakpoint) :
    (s.step p).2.diagnostics = s.diagnostics := by
  have hsame : Part.diagnostics.Same s (s.step p).2 := by
    apply step_same (by decide)
    intro i hi htouched
    rw [nextOpcode?_eq_some hi] at hprint hreport
    rcases (diagnostics_touched_iff i.opcode).mp htouched with hop | hop
    · exact hprint (congrArg some hop)
    · exact hreport (congrArg some hop)
  exact hsame

/-- Whether or not the flush is refused, the text has been added if it was taken. -/
theorem diagnose_diagnostics (text : String) (s : State) :
    (diagnose text s).2.diagnostics = s.diagnostics.append
      (((s.diagnostics.write s.executed text).toOption.map fun _ => text).getD "") := by
  have hwrite : (diagnose text s).2.diagnostics = (writeDiagnostics text s).2.diagnostics := by
    change (Exec.bind _ _ s).2.diagnostics = _
    unfold Exec.bind
    split
    · rename_i ht
      rw [ht]
      rfl
    · rename_i ht
      rw [ht]
  rw [hwrite, writeDiagnostics]
  cases hc : s.diagnostics.write s.executed text with
  | error reason => exact (Channel.append_empty _).symm
  | ok channel => exact Channel.eq_append_of_write hc

theorem perform_diagnostics (h : i.opcode = .dPrint ∨ i.opcode = .breakpoint) :
    (perform p i (Action.ofOpcode i.opcode) s).2.diagnostics =
      s.diagnostics.append ((s.accepted? i).getD "") := by
  rcases h with hop | hop
  · rw [ofOpcode_eq_print.mpr hop, perform]
    cases hvalue : s.symbol i 1 with
    | error fault =>
      rw [ask_bind_of_error (f := fun s => s.symbol i 1) hvalue]
      simp [State.accepted?, State.diagnosticText?, hop, hvalue, Except.toOption]
    | ok value =>
      rw [ask_bind_of_ok (f := fun s => s.symbol i 1) hvalue, diagnose_diagnostics]
      simp [State.accepted?, State.diagnosticText?, hop, hvalue, Except.toOption]
  · rw [ofOpcode_eq_report.mpr hop, perform, ask_bind_of_ok (f := fun s => .ok s.report) rfl,
      diagnose_diagnostics]
    simp [State.accepted?, State.diagnosticText?, hop]

theorem step_diagnostics (p : Program) (s : State) :
    (s.step p).2.diagnostics = s.diagnostics.append ((s.diagnosed? p).getD "") := by
  cases hi : p.after? s.pc with
  | none =>
    rw [State.step, hi]
    simp [State.diagnosed?, hi]
  | some i =>
    cases harity : i.arityFault? with
    | some fault =>
      rw [step_of_arityFault hi harity]
      simp [State.diagnosed?, hi, harity]
    | none =>
      have hdiagnosed : s.diagnosed? p = (fetched s i.order).accepted? i := by
        simp [State.diagnosed?, hi, harity]
      by_cases hop : i.opcode = .dPrint ∨ i.opcode = .breakpoint
      · rw [hdiagnosed, step_snd_of_fits hi harity (by rcases hop with hop | hop <;> simp [hop])]
        exact perform_diagnostics hop
      · obtain ⟨hprint, hreport⟩ := not_or.mp hop
        have hnone : s.diagnosed? p = none := by
          simp [hdiagnosed, State.accepted?, State.diagnosticText?]
        have hkept : (s.step p).2.diagnostics = s.diagnostics := by
          apply diagnostics_kept
          all_goals simpa [nextOpcode?_eq_some hi]
        rw [hkept, hnone]
        exact (Channel.append_empty _).symm

/-! The input. -/

theorem input_kept (h : ¬ s.Reads p) : (s.step p).2.input = s.input := by
  by_cases hnext : s.nextOpcode? p = some .read
  · obtain ⟨i, hi, hop⟩ := Option.map_eq_some_iff.mp hnext
    rcases continues_or_fails hi (by simp [hop]) with hc | ⟨e, he⟩
    · exact absurd (by simp [State.Reads, hc, hop]) h
    · obtain ⟨_, _, ht⟩ := step_fails hi he
      rw [ht]
  · have hsame : Part.input.Same s (s.step p).2 := by
      apply step_same (by decide)
      intro i hi htouched
      rw [nextOpcode?_eq_some hi] at hnext
      exact hnext (congrArg some ((input_touched_iff i.opcode).mp htouched))
    exact hsame

theorem step_reads (h : s.Reads p) : (s.step p).2.input = s.input.next.2 ∧
    ∃ i v requested, p.after? s.pc = some i ∧ i.opcode = .read ∧ i.arg1 = some (.var v) ∧
      i.arg2 = some (.type requested) ∧ s.frames.Alters (s.step p).2.frames v
        (some (Input.value s.input.next.1 requested)) := by
  obtain ⟨i, hc, hop⟩ := Option.map_eq_some_iff.mp h
  obtain ⟨hok, hi⟩ := continued?_eq_some.mp hc
  have hstep := perform_of_step hi (Prod.ext hok rfl)
  rw [hop] at hstep
  obtain ⟨v, (hv : i.variableAt 1 = .ok v), hstep⟩ := ask_bind_eq_ok.mp hstep
  obtain ⟨requested, (hrequested : i.typeAt 2 = .ok requested), hstep⟩ := ask_bind_eq_ok.mp hstep
  split at hstep
  · obtain ⟨_, -, hstep⟩ := ask_bind_eq_ok.mp hstep
    obtain ⟨line, u, hu, hstep⟩ := apply_bind_eq_ok.mp hstep
    have hline : s.input.next.1 = line := Except.ok.inj (congrArg Prod.fst hu)
    obtain rfl : { fetched s i.order with input := s.input.next.2 } = u := congrArg Prod.snd hu
    have hkeeps : Keeps .input (store v (Input.value line requested)) := keeps_store (by decide) _ _
    have hinput := hkeeps { fetched s i.order with input := s.input.next.2 }
    rw [hstep] at hinput
    obtain ⟨f, hf, -, hgs⟩ := Frames.assign_eq_ok (changeFrames_eq_ok hstep)
    refine ⟨hinput, i, v, requested, hi, hop, Instruction.operandOf_eq_ok.mp hv,
      Instruction.operandOf_eq_ok.mp hrequested, ?_⟩
    rw [hgs, hline]
    exact Frames.alters_put hf _
  · cases hstep

end Steps

section Runs

variable {p : Program}

/-- If every step adds its text to a channel, a run adds the texts of its steps. -/
theorem afterSteps_append {channel : State → Channel} {text? : State → Option String}
    (h : ∀ s, channel (s.step p).2 = (channel s).append ((text? s).getD "")) (n : Nat) (s : State) :
    channel (s.afterSteps p n) =
      (channel s).append (String.join ((s.visited p n).filterMap text?)) := by
  induction n generalizing s with
  | zero => simp [State.afterSteps, State.visited]
  | succ n ih =>
    rw [State.afterSteps, State.visited, ih, h, Channel.append_append]
    cases ht : text? s with
    | none => simp [ht]
    | some text => simp [ht]

theorem input_afterSteps (n : Nat) (s : State) :
    (s.afterSteps p n).input = s.input.afterCalls (s.readings p n).length := by
  induction n generalizing s with
  | zero => rfl
  | succ n ih =>
    rw [State.afterSteps, ih, State.readings, State.readings, State.visited]
    by_cases hreads : s.Reads p
    · rw [(step_reads hreads).1, List.filter_cons_of_pos (by simpa using hreads)]
      rfl
    · rw [input_kept hreads, List.filter_cons_of_neg (by simpa using hreads)]

theorem input_of_reading {n k : Nat} {s u : State} (h : (s.readings p n)[k]? = some u) :
    u.Reads p ∧ u.input = s.input.afterCalls k := by
  induction n generalizing s k with
  | zero => simp [State.readings, State.visited] at h
  | succ n ih =>
    rw [State.readings, State.visited] at h
    by_cases hreads : s.Reads p
    · rw [List.filter_cons_of_pos (by simpa using hreads)] at h
      cases k with
      | zero =>
        obtain rfl : s = u := Option.some.inj h
        exact ⟨hreads, rfl⟩
      | succ k =>
        obtain ⟨hu, hinput⟩ := ih h
        rw [(step_reads hreads).1] at hinput
        exact ⟨hu, hinput⟩
    · rw [List.filter_cons_of_neg (by simpa using hreads)] at h
      rw [← input_kept hreads]
      exact ih h

end Runs

/-- In a run of any length, whatever fails on the way and whatever the gates refuse, the output is
made up of the texts of the writes that succeeded, and the diagnostics of those that were taken, in
the order of the steps. The readings that succeed get the lines in their order, and nothing else
takes a line. No other instruction changes a channel. -/
theorem channels_record_run (p : Program) (input : Input) (output diagnostics : Gate) (n : Nat) :
    let start := State.fresh input output diagnostics
    (start.afterSteps p n).output =
      ⟨String.join ((start.visited p n).filterMap (State.written? p)), output⟩ ∧
    (start.afterSteps p n).diagnostics =
      ⟨String.join ((start.visited p n).filterMap (State.diagnosed? p)), diagnostics⟩ ∧
    (start.afterSteps p n).input = input.afterCalls (start.readings p n).length ∧
    (∀ (k : Nat) (u : State), (start.readings p n)[k]? = some u →
      ∃ i v requested, p.after? u.pc = some i ∧ i.opcode = .read ∧ i.arg1 = some (.var v) ∧
        i.arg2 = some (.type requested) ∧ u.frames.Alters (u.step p).2.frames v
          (some (Input.value (input.result k) requested))) ∧
    ∀ u : State,
      (u.nextOpcode? p ≠ some .write → (u.step p).2.output = u.output) ∧
      (u.nextOpcode? p ≠ some .dPrint → u.nextOpcode? p ≠ some .breakpoint →
        (u.step p).2.diagnostics = u.diagnostics) ∧
      (¬ u.Reads p → (u.step p).2.input = u.input) := by
  intro start
  refine ⟨?_, ?_, input_afterSteps n start, ?_, ?_⟩
  · rw [afterSteps_append (step_output p) n start]
    simp [start, State.fresh, Channel.append]
  · rw [afterSteps_append (step_diagnostics p) n start]
    simp [start, State.fresh, Channel.append]
  · intro k u hu
    obtain ⟨hreads, hinput⟩ := input_of_reading hu
    obtain ⟨-, i, v, requested, hi, hop, hv, hrequested, halters⟩ := step_reads hreads
    rw [hinput] at halters
    exact ⟨i, v, requested, hi, hop, hv, hrequested, halters⟩
  · intro u
    exact ⟨output_kept, diagnostics_kept, input_kept⟩

/-- Readings, writes of four types and a report succeed among others that fail: a reading into an
undeclared variable, one of no type that can be read, a write and a report for which there is no
room, and a print whose text is taken though the flush is refused. -/
theorem channels_record_mixed_run :
    let x : Operand := .var ⟨.global, "x"⟩
    let second : Instruction := ⟨9, .read, some x, some (.type .string), none⟩
    let p : Program := ⟨⟨[
      (1, { order := 1, opcode := .defVar, arg1 := some x }),
      (2, ⟨2, .read, some (.var ⟨.global, "y"⟩), some (.type .string), none⟩),
      (3, ⟨3, .read, some x, some (.type .label), none⟩),
      (4, ⟨4, .read, some x, some (.type .bool), none⟩),
      (5, { order := 5, opcode := .write, arg1 := some x }),
      (6, { order := 6, opcode := .write, arg1 := some (.const (.string "abcdefghijkl")) }),
      (7, { order := 7, opcode := .dPrint, arg1 := some (.const (.string "d")) }),
      (8, { order := 8, opcode := .breakpoint }),
      (9, second),
      (10, { order := 10, opcode := .write, arg1 := some x }),
      (11, { order := 11, opcode := .write, arg1 := some (.const (.int (-7))) }),
      (12, { order := 12, opcode := .write, arg1 := some (.const (.float ⟨0x3ff8000000000000⟩)) }),
      (13, { order := 13, opcode := .breakpoint })]⟩, .empty, 13⟩
    let input : Input := .ofLines ["true", "z", "w"]
    let diagnostics : Gate := { Gate.limited (some 200) false with
      flush := fun _ taken => if taken = "d" then some "flush refused" else none }
    let start : State := .fresh input (.limited (some 15) false) diagnostics
    (start.afterSteps p 13).output.taken = "truez-70x1.8p+0" ∧
      (start.afterSteps p 13).diagnostics.taken =
        "dposition: instruction 8\nexecuted: 8\nGF: \x7bx: bool@true\x7d\nTF: undefined\n" ++
          "frame stack: []\ncall stack: []\ndata stack: []\n" ∧
      (start.afterSteps p 13).input = .ofLines ["w"] ∧
      ∃ u ∈ start.readings p 13, (u.step p).2.frames.lookup ⟨.global, "x"⟩ =
        .ok (some (.string "z")) := by
  intro x second p input diagnostics start
  obtain ⟨houtput, hdiagnostics, hinput, hreadings, -⟩ := channels_record_run p input
    (.limited (some 15) false) diagnostics 13
  refine ⟨?_, ?_, ?_, ?_⟩
  · rw [houtput]
    decide +kernel
  · rw [hdiagnostics]
    decide +kernel
  · rw [hinput]
    decide +kernel
  · have hnext : p.after? 8 = some second := by decide +kernel
    have hpc : ((start.readings p 13)[1]?).map State.pc = some 8 := by decide +kernel
    obtain ⟨u, hu, hpc⟩ := Option.map_eq_some_iff.mp hpc
    obtain ⟨i, v, requested, hi, -, hv, hrequested, halters⟩ := hreadings 1 u hu
    rw [hpc, hnext] at hi
    obtain rfl : second = i := Option.some.inj hi
    obtain rfl : ⟨.global, "x"⟩ = v := Operand.var.inj (Option.some.inj hv)
    obtain rfl : .string = requested := Operand.type.inj (Option.some.inj hrequested)
    exact ⟨u, List.mem_of_getElem? hu, halters.altered.trans (by decide +kernel)⟩

end Machine

end ThreeAddress
