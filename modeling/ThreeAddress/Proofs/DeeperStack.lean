import ThreeAddress.Proofs.ControlFlow

/-! Values that lie deeper on the data stack do not matter. An instruction sees the stack from its
top, and only as far down as it takes values from it; what lies below stays there, unless the whole
stack is cleared or reported. So whatever a run does without running out of values, it does on top
of any other stack. -/

namespace ThreeAddress.Machine

def State.raised (s : State) (below : List Value) : State := { s with data := s.data ++ below }

namespace Exec

variable {α β : Type} {below : List Value} {height : Nat}

/-- On a stack of at least the given height, the computation runs out of values or does the same as
on top of the other values. -/
def StaysAbove (below : List Value) (height : Nat) (x : Exec α) : Prop :=
  ∀ s, height ≤ s.data.length → (x s).1 ≠ .error .dataStackUnderflow →
    x (s.raised below) = ((x s).1, (x s).2.raised below)

theorem StaysAbove.bind {x : Exec α} {g : α → Exec β} (hx : StaysAbove below height x)
    (hg : ∀ a, StaysAbove below 0 (g a)) : StaysAbove below height (x >>= g) := by
  intro s hs h
  have hfirst := hx s hs
  change (Exec.bind x g s).1 ≠ _ at h
  change Exec.bind x g (s.raised below) =
    ((Exec.bind x g s).1, (Exec.bind x g s).2.raised below)
  unfold Exec.bind at h ⊢
  cases hresult : x s with
  | mk result t =>
    rw [hresult] at h hfirst
    cases result with
    | error fault => rw [hfirst (by simpa using h)]
    | ok a =>
      rw [hfirst nofun]
      exact hg a t (Nat.zero_le _) h

theorem staysAbove_pure (a : α) : StaysAbove below height (pure a : Exec α) := fun _ _ _ => rfl

theorem staysAbove_ask_bind {f : State → Except Fault α} {g : α → Exec β}
    (h : ∀ s, f (s.raised below) = f s) (hg : ∀ a, StaysAbove below height (g a)) :
    StaysAbove below height (ask f >>= g) := by
  intro s hs hne
  cases hf : f s with
  | error fault =>
    rw [ask_bind_of_error hf, ask_bind_of_error ((h s).trans hf)]
  | ok a =>
    rw [ask_bind_of_ok hf] at hne ⊢
    rw [ask_bind_of_ok ((h s).trans hf)]
    exact hg a s hs hne

theorem staysAbove_fail (fault : Fault) : StaysAbove below height (fail fault : Exec α) :=
  fun _ _ _ => rfl

theorem staysAbove_goTo (order : Order) : StaysAbove below height (goTo order) := fun _ _ _ => rfl

theorem staysAbove_changeFrames (f : Frames → Except Frames.Fault Frames) :
    StaysAbove below height (changeFrames f) := by
  intro s _ _
  simp only [changeFrames, State.raised]
  cases f s.frames <;> rfl

theorem staysAbove_store (v : Variable) (value : Value) :
    StaysAbove below height (store v value) := staysAbove_changeFrames _

theorem staysAbove_pushCall : StaysAbove below height pushCall := fun _ _ _ => rfl

theorem staysAbove_popCall : StaysAbove below height popCall := by
  intro s _ _
  cases hs : s.calls <;> simp [popCall, State.raised, hs]

theorem staysAbove_nextLine : StaysAbove below height nextLine := fun _ _ _ => rfl

theorem staysAbove_emit (text : String) : StaysAbove below height (emit text) := by
  intro s _ _
  simp only [emit, State.raised]
  cases s.output.write s.executed text <;> rfl

theorem staysAbove_diagnose (text : String) : StaysAbove below height (diagnose text) := by
  refine StaysAbove.bind ?_ fun _ => fun _ _ _ => rfl
  intro s _ _
  simp only [writeDiagnostics, State.raised]
  cases s.diagnostics.write s.executed text <;> rfl

/-! The data stack. -/

theorem staysAbove_pushData (value : Value) : StaysAbove below height (pushData value) :=
  fun _ _ _ => rfl

theorem staysAbove_popData : StaysAbove below height popData := by
  intro s _ h
  cases hs : s.data with
  | nil => exact absurd (by rw [popData, hs]) h
  | cons value rest => simp [popData, State.raised, hs]

theorem staysAbove_dropData : StaysAbove below height (dropData height) := by
  intro s hs _
  simp only [dropData, modify, State.raised]
  rw [List.drop_append_of_le_length hs]

theorem staysAbove_top_bind {g : Value → Exec β} (hg : ∀ a, StaysAbove below 1 (g a)) :
    StaysAbove below height (ask State.top >>= g) := by
  intro s _ h
  cases hs : s.data with
  | nil =>
    have hfails : s.top = .error .dataStackUnderflow := by rw [State.top, hs]
    rw [ask_bind_of_error hfails] at h
    exact absurd rfl h
  | cons a rest =>
    have htop : s.top = .ok a := by rw [State.top, hs]
    have hraised : (s.raised below).top = .ok a := by simp [State.top, State.raised, hs]
    rw [ask_bind_of_ok htop] at h ⊢
    rw [ask_bind_of_ok hraised]
    exact hg a s (by simp [hs]) h

theorem staysAbove_topTwo_bind {g : Value × Value → Exec β} (hg : ∀ ab, StaysAbove below 2 (g ab)) :
    StaysAbove below height (ask State.topTwo >>= g) := by
  intro s _ h
  cases hs : s.topTwo with
  | error fault =>
    have hfault : fault = .dataStackUnderflow := by
      unfold State.topTwo at hs
      split at hs
      · cases hs
      · exact (Except.error.inj hs).symm
    rw [ask_bind_of_error hs, hfault] at h
    exact absurd rfl h
  | ok ab =>
    obtain ⟨rest, hdata⟩ : ∃ rest, s.data = ab.2 :: ab.1 :: rest := by
      unfold State.topTwo at hs
      split at hs
      · rename_i b a rest hdata
        obtain rfl := Except.ok.inj hs
        exact ⟨rest, hdata⟩
      · cases hs
    have hraised : (s.raised below).topTwo = .ok ab := by simp [State.topTwo, State.raised, hdata]
    rw [ask_bind_of_ok hs] at h ⊢
    rw [ask_bind_of_ok hraised]
    exact hg ab s (by simp [hdata]) h

end Exec

open Exec

/-- All but the two actions that see the whole data stack stay above what lies deeper. -/
theorem perform_staysAbove {p : Program} {i : Instruction} {action : Action} (below : List Value)
    (hclear : action ≠ .clear) (hreport : action ≠ .report) :
    StaysAbove below 0 (perform p i action) := by
  have given {α : Type} {height : Nat} (result : Except Fault α) {g : α → Exec Unit}
      (hg : ∀ a, StaysAbove below height (g a)) :
      StaysAbove below height ((result : Exec α) >>= g) :=
    staysAbove_ask_bind (fun _ => rfl) hg
  have symbol (position : Nat) {g : Value → Exec Unit} (hg : ∀ a, StaysAbove below 0 (g a)) :
      StaysAbove below 0 (ask (fun s => s.symbol i position) >>= g) :=
    staysAbove_ask_bind (fun _ => rfl) hg
  have declared (v : Variable) {g : Unit → Exec Unit} (hg : ∀ a, StaysAbove below 0 (g a)) :
      StaysAbove below 0 (ask (fun s => s.ensureDeclared v) >>= g) :=
    staysAbove_ask_bind (fun _ => rfl) hg
  have goToIf (c : Prop) [Decidable c] (order : Order) :
      StaysAbove below 0 (if c then goTo order else pure () : Exec Unit) := by
    by_cases hc : c
    · rw [if_pos hc]
      exact staysAbove_goTo order
    · rw [if_neg hc]
      exact staysAbove_pure ()
  cases action with
  | createFrame | pushFrame | popFrame => exact staysAbove_changeFrames _
  | declare => exact given _ fun v => staysAbove_changeFrames _
  | call => exact given _ fun order => staysAbove_pushCall.bind fun _ => staysAbove_goTo order
  | returnBack => exact staysAbove_popCall.bind fun order => staysAbove_goTo order
  | proceed | exit => exact staysAbove_pure ()
  | jump => exact given _ fun order => staysAbove_goTo order
  | jumpIf equal =>
    refine given _ fun order => symbol 2 fun a => symbol 3 fun b => ?_
    exact given _ fun result => goToIf _ order
  | move => exact given _ fun v => symbol 2 fun value => staysAbove_store v value
  | push => exact symbol 1 fun value => staysAbove_pushData value
  | pop =>
    refine given _ fun v => declared v fun _ => ?_
    exact staysAbove_popData.bind fun value => staysAbove_store v value
  | clear => exact absurd rfl hclear
  | binary op =>
    refine given _ fun v => symbol 2 fun a => symbol 3 fun b => ?_
    exact given _ fun value => staysAbove_store v value
  | unary op =>
    exact given _ fun v => symbol 2 fun a => given _ fun value => staysAbove_store v value
  | setChar =>
    refine given _ fun v => staysAbove_ask_bind (fun _ => rfl) fun current => ?_
    refine symbol 2 fun index => symbol 3 fun replacement => ?_
    exact given _ fun value => staysAbove_store v value
  | typeOf =>
    exact given _ fun v => staysAbove_ask_bind (fun _ => rfl) fun value => staysAbove_store v _
  | stackBinary op =>
    refine staysAbove_topTwo_bind fun (a, b) => given _ fun value => ?_
    exact staysAbove_dropData.bind fun _ => staysAbove_pushData value
  | stackUnary op =>
    refine staysAbove_top_bind fun a => given _ fun value => ?_
    exact staysAbove_dropData.bind fun _ => staysAbove_pushData value
  | stackJumpIf equal =>
    refine given _ fun order => staysAbove_topTwo_bind fun (a, b) => given _ fun result => ?_
    exact staysAbove_dropData.bind fun _ => goToIf _ order
  | read =>
    refine given _ fun v => given _ fun requested => ?_
    by_cases hreadable : requested.readable = true
    · rw [if_pos hreadable]
      refine declared v fun _ => staysAbove_nextLine.bind fun line => ?_
      exact staysAbove_store v _
    · rw [if_neg hreadable]
      exact staysAbove_fail _
  | write => exact symbol 1 fun value => staysAbove_emit _
  | print => exact symbol 1 fun value => staysAbove_diagnose _
  | report => exact absurd rfl hreport

def State.SeesOnlyTop (p : Program) (s : State) : Prop :=
  ∀ i ∈ p.after? s.pc, i.opcode ≠ .clearS ∧ i.opcode ≠ .breakpoint

instance (p : Program) (s : State) : Decidable (s.SeesOnlyTop p) :=
  inferInstanceAs (Decidable (∀ i ∈ p.after? s.pc, _))

def State.Underflows (p : Program) (s : State) : Prop :=
  ∃ order, (s.step p).1 = .error ⟨order, .dataStackUnderflow⟩

section Steps

variable {p : Program} {i : Instruction} {s : State} {below : List Value}

theorem ofOpcode_eq_clear {opcode : Opcode} :
    Action.ofOpcode opcode = .clear ↔ opcode = .clearS := by
  cases opcode <;> simp [Action.ofOpcode]

theorem dispatch_staysAbove (below : List Value) (hclear : i.opcode ≠ .clearS)
    (hreport : i.opcode ≠ .breakpoint) : StaysAbove below 0 (dispatch p i) := by
  by_cases hexit : Action.ofOpcode i.opcode = .exit
  · simp only [dispatch, hexit]
    exact staysAbove_ask_bind (fun _ => rfl) fun code => staysAbove_pure _
  · rw [dispatch_of_ne_exit rfl hexit]
    refine (perform_staysAbove below ?_ ?_).bind fun _ => staysAbove_pure _
    · rwa [Ne, ofOpcode_eq_clear]
    · rwa [Ne, ofOpcode_eq_report]

theorem step_eq_dispatch (hi : p.after? s.pc = some i) (hfits : i.arityFault? = none) :
    s.step p = ((dispatch p i (fetched s i.order)).1.mapError (Failure.mk i.order),
      (dispatch p i (fetched s i.order)).2) := by
  rw [State.step, hi]
  simp [hfits, fetched]

/-- A step that does not run out of values is the same step on top of other values. -/
theorem step_raised (hsees : s.SeesOnlyTop p) (hvalues : ¬ s.Underflows p) :
    (s.raised below).step p = ((s.step p).1, (s.step p).2.raised below) := by
  cases hi : p.after? s.pc with
  | none =>
    have hraised : p.after? (s.raised below).pc = none := hi
    rw [State.step, State.step, hi, hraised]
  | some i =>
    have hraised : p.after? (s.raised below).pc = some i := hi
    by_cases hfits : i.arityFault? = none
    · obtain ⟨hclear, hreport⟩ := hsees i hi
      have hne : (dispatch p i (fetched s i.order)).1 ≠ .error .dataStackUnderflow := by
        intro hfault
        apply hvalues
        rw [State.Underflows, step_eq_dispatch hi hfits, hfault]
        exact ⟨i.order, rfl⟩
      have hdispatch : dispatch p i (fetched (s.raised below) i.order) = _ :=
        dispatch_staysAbove below hclear hreport (fetched s i.order) (Nat.zero_le _) hne
      rw [step_eq_dispatch hraised hfits, step_eq_dispatch hi hfits, hdispatch]
    · obtain ⟨fault, hfault⟩ := Option.ne_none_iff_exists'.mp hfits
      rw [step_of_arityFault hi hfault, step_of_arityFault hraised hfault]
      rfl

theorem afterSteps_raised {n : Nat}
    (h : ∀ k < n, (s.afterSteps p k).SeesOnlyTop p ∧ ¬ (s.afterSteps p k).Underflows p) :
    (s.raised below).afterSteps p n = (s.afterSteps p n).raised below := by
  induction n with
  | zero => rfl
  | succ n ih =>
    obtain ⟨hsees, hvalues⟩ := h n (Nat.lt_succ_self n)
    rw [afterSteps_succ, afterSteps_succ, ih fun k hk => h k (Nat.lt_succ_of_lt hk),
      step_raised hsees hvalues]

end Steps

/-- A step other than a `CLEARS` or a `BREAK` comes to the same result on top of any values, unless
it runs out of values, and leaves these values where they are. So does every run in which no step
runs out of values, step by step; its steps may fail for other reasons. -/
theorem deeper_values_unseen (p : Program) (s : State) (below : List Value) :
    (s.SeesOnlyTop p →
      (∀ status t, s.step p = (.ok status, t) →
        (s.raised below).step p = (.ok status, t.raised below)) ∧
      (∀ e t, s.step p = (.error e, t) → e.fault ≠ .dataStackUnderflow →
        (s.raised below).step p = (.error e, t.raised below))) ∧
    ∀ n, (∀ k < n, (s.afterSteps p k).SeesOnlyTop p ∧ ¬ (s.afterSteps p k).Underflows p) →
      (∀ k ≤ n, (s.raised below).afterSteps p k = (s.afterSteps p k).raised below) ∧
      (∀ k < n, (((s.raised below).afterSteps p k).step p).1 = ((s.afterSteps p k).step p).1) := by
  constructor
  · intro hsees
    constructor
    · intro status t hstep
      have hvalues : ¬ s.Underflows p := by
        rintro ⟨order, h⟩
        rw [hstep] at h
        cases h
      rw [step_raised hsees hvalues, hstep]
    · intro e t hstep hfault
      have hvalues : ¬ s.Underflows p := by
        rintro ⟨order, h⟩
        rw [hstep] at h
        exact hfault (congrArg Failure.fault (Except.error.inj h))
      rw [step_raised hsees hvalues, hstep]
  · intro n h
    have hsame (k : Nat) (hk : k ≤ n) :
        (s.raised below).afterSteps p k = (s.afterSteps p k).raised below :=
      afterSteps_raised fun j hj => h j (Nat.lt_of_lt_of_le hj hk)
    refine ⟨hsame, fun k hk => ?_⟩
    obtain ⟨hsees, hvalues⟩ := h k hk
    rw [hsame k (Nat.le_of_lt hk), step_raised hsees hvalues]

/-- A sum on top of a nil, and a value that cannot be taken off because its variable does not
exist. -/
theorem sum_above_nil :
    let p : Program := ⟨⟨[
      (1, { order := 1, opcode := .pushS, arg1 := some (.const (.int 1)) }),
      (2, { order := 2, opcode := .pushS, arg1 := some (.const (.int 2)) }),
      (3, { order := 3, opcode := .addS }),
      (4, { order := 4, opcode := .popS, arg1 := some (.var ⟨.global, "x"⟩) })]⟩, ⟨[]⟩, 4⟩
    let s : State := .fresh {} {} {}
    ((s.raised [.nil]).afterSteps p 4).data = [.int 3, .nil] ∧
      (((s.raised [.nil]).afterSteps p 3).step p).1 =
        .error ⟨4, .frames (.undeclared ⟨.global, "x"⟩)⟩ := by
  intro p s
  have hsees : ∀ k < 4, (s.afterSteps p k).SeesOnlyTop p := by decide +kernel
  have hresults : ∀ k < 4, ((s.afterSteps p k).step p).1 = .ok .running ∨
      ((s.afterSteps p k).step p).1 = .error ⟨4, .frames (.undeclared ⟨.global, "x"⟩)⟩ := by
    decide +kernel
  have hvalues : ∀ k < 4, ¬ (s.afterSteps p k).Underflows p := by
    rintro k hk ⟨order, h⟩
    rcases hresults k hk with hresult | hresult <;> simp [hresult] at h
  obtain ⟨hstates, hsteps⟩ := (deeper_values_unseen p s [.nil]).2 4
    fun k hk => ⟨hsees k hk, hvalues k hk⟩
  constructor
  · rw [hstates 4 (Nat.le_refl 4)]
    decide +kernel
  · rw [hsteps 3 (by decide)]
    decide +kernel

end ThreeAddress.Machine
