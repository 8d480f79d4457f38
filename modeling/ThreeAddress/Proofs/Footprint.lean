import ThreeAddress.Machine.Step

/-! What instructions leave alone. The state has parts, an action touches some of them, and the
others are after it what they were before, however it ends. -/

namespace ThreeAddress.Machine

inductive Part where
  | frames
  | data
  | calls
  | place
  | input
  | output
  | diagnostics
  deriving DecidableEq, Repr

def Part.Same (s t : State) : Part → Prop
  | frames => t.frames = s.frames
  | data => t.data = s.data
  | calls => t.calls = s.calls
  | place => t.pc = s.pc
  | input => t.input = s.input
  | output => t.output = s.output
  | diagnostics => t.diagnostics = s.diagnostics

def Action.touched : Action → List Part
  | .createFrame | .pushFrame | .popFrame | .declare | .move | .binary _ | .unary _ | .setChar
  | .typeOf => [.frames]
  | .call | .returnBack => [.calls, .place]
  | .jump | .jumpIf _ => [.place]
  | .push | .clear | .stackBinary _ | .stackUnary _ => [.data]
  | .pop => [.frames, .data]
  | .stackJumpIf _ => [.data, .place]
  | .read => [.frames, .input]
  | .write => [.output]
  | .print | .report => [.diagnostics]
  | .proceed | .exit => []

theorem Part.same_refl (part : Part) (s : State) : part.Same s s := by
  cases part <;> rfl

theorem Part.Same.trans {part : Part} {s t u : State} (hst : part.Same s t)
    (htu : part.Same t u) : part.Same s u := by
  cases part <;> exact Eq.trans htu hst

namespace Exec

variable {α β : Type} {part : Part}

def Keeps (part : Part) (x : Exec α) : Prop := ∀ s, part.Same s (x s).2

theorem Keeps.bind {x : Exec α} {g : α → Exec β} (hx : Keeps part x)
    (hg : ∀ a, Keeps part (g a)) : Keeps part (x >>= g) := by
  intro s
  have hfirst := hx s
  change part.Same s (Exec.bind x g s).2
  unfold Exec.bind
  split
  · rename_i a t ht
    rw [ht] at hfirst
    exact hfirst.trans (hg a t)
  · rename_i fault t ht
    rw [ht] at hfirst
    exact hfirst

theorem keeps_pure (a : α) : Keeps part (pure a : Exec α) := part.same_refl

theorem keeps_ask (f : State → Except Fault α) : Keeps part (ask f) := part.same_refl

theorem keeps_ask_bind {f : State → Except Fault α} {g : α → Exec β}
    (hg : ∀ a, Keeps part (g a)) : Keeps part (ask f >>= g) := (keeps_ask f).bind hg

theorem keeps_goTo (h : part ≠ .place) (order : Order) : Keeps part (goTo order) := by
  intro s
  cases part <;> first | rfl | exact absurd rfl h

theorem keeps_changeFrames (h : part ≠ .frames) (f : Frames → Except Frames.Fault Frames) :
    Keeps part (changeFrames f) := by
  intro s
  rw [changeFrames]
  cases f s.frames with
  | error fault => exact part.same_refl s
  | ok frames => cases part <;> first | rfl | exact absurd rfl h

theorem keeps_store (h : part ≠ .frames) (v : Variable) (value : Value) :
    Keeps part (store v value) := keeps_changeFrames h _

theorem keeps_modifyData (h : part ≠ .data) (f : State → List Value) :
    Keeps part (modify fun s => { s with data := f s }) := by
  intro s
  cases part <;> first | rfl | exact absurd rfl h

theorem keeps_pushData (h : part ≠ .data) (value : Value) : Keeps part (pushData value) :=
  keeps_modifyData h _

theorem keeps_dropData (h : part ≠ .data) (n : Nat) : Keeps part (dropData n) :=
  keeps_modifyData h _

theorem keeps_popData (h : part ≠ .data) : Keeps part popData := by
  intro s
  unfold popData
  split
  · cases part <;> first | rfl | exact absurd rfl h
  · exact part.same_refl s

theorem keeps_pushCall (h : part ≠ .calls) : Keeps part pushCall := by
  intro s
  cases part <;> first | rfl | exact absurd rfl h

theorem keeps_popCall (h : part ≠ .calls) : Keeps part popCall := by
  intro s
  unfold popCall
  split
  · cases part <;> first | rfl | exact absurd rfl h
  · exact part.same_refl s

theorem keeps_nextLine (h : part ≠ .input) : Keeps part nextLine := by
  intro s
  cases part <;> first | rfl | exact absurd rfl h

theorem keeps_emit (h : part ≠ .output) (text : String) : Keeps part (emit text) := by
  intro s
  unfold emit
  split
  · cases part <;> first | rfl | exact absurd rfl h
  · exact part.same_refl s

theorem keeps_diagnose (h : part ≠ .diagnostics) (text : String) : Keeps part (diagnose text) := by
  refine Keeps.bind ?_ fun _ => keeps_ask _
  intro s
  unfold writeDiagnostics
  split
  · cases part <;> first | rfl | exact absurd rfl h
  · exact part.same_refl s

end Exec

open Exec

theorem perform_keeps {part : Part} {p : Program} {i : Instruction} {action : Action}
    (h : part ∉ action.touched) : Keeps part (perform p i action) := by
  have other (x : Part) (hx : action.touched.contains x = true) : part ≠ x := by
    rintro rfl
    exact h (List.contains_iff_mem.mp hx)
  have goToIf (hplace : part ≠ .place) (c : Prop) [Decidable c] (order : Order) :
      Keeps part (if c then goTo order else pure () : Exec Unit) := by
    split
    · exact keeps_goTo hplace order
    · exact keeps_pure ()
  cases action with
  | createFrame | pushFrame | popFrame => exact keeps_changeFrames (other .frames rfl) _
  | declare => exact keeps_ask_bind fun v => keeps_changeFrames (other .frames rfl) _
  | call =>
    refine keeps_ask_bind fun order => (keeps_pushCall (other .calls rfl)).bind fun _ => ?_
    exact keeps_goTo (other .place rfl) order
  | returnBack =>
    refine (keeps_popCall (other .calls rfl)).bind fun order => ?_
    exact keeps_goTo (other .place rfl) order
  | proceed | exit => exact keeps_pure ()
  | jump => exact keeps_ask_bind fun order => keeps_goTo (other .place rfl) order
  | jumpIf equal =>
    refine keeps_ask_bind fun order => keeps_ask_bind fun a => keeps_ask_bind fun b => ?_
    exact keeps_ask_bind fun result => goToIf (other .place rfl) _ order
  | move =>
    refine keeps_ask_bind fun v => keeps_ask_bind fun value => ?_
    exact keeps_store (other .frames rfl) v value
  | push => exact keeps_ask_bind fun value => keeps_pushData (other .data rfl) value
  | pop =>
    refine keeps_ask_bind fun v => keeps_ask_bind fun _ => ?_
    refine (keeps_popData (other .data rfl)).bind fun value => ?_
    exact keeps_store (other .frames rfl) v value
  | clear => exact keeps_modifyData (other .data rfl) _
  | binary op =>
    refine keeps_ask_bind fun v => keeps_ask_bind fun a => keeps_ask_bind fun b => ?_
    exact keeps_ask_bind fun value => keeps_store (other .frames rfl) v value
  | unary op =>
    refine keeps_ask_bind fun v => keeps_ask_bind fun a => keeps_ask_bind fun value => ?_
    exact keeps_store (other .frames rfl) v value
  | setChar =>
    refine keeps_ask_bind fun v => keeps_ask_bind fun current => keeps_ask_bind fun index => ?_
    refine keeps_ask_bind fun replacement => keeps_ask_bind fun value => ?_
    exact keeps_store (other .frames rfl) v value
  | typeOf =>
    refine keeps_ask_bind fun v => keeps_ask_bind fun value => ?_
    exact keeps_store (other .frames rfl) v _
  | stackBinary op =>
    refine keeps_ask_bind fun (a, b) => keeps_ask_bind fun value => ?_
    refine (keeps_dropData (other .data rfl) 2).bind fun _ => ?_
    exact keeps_pushData (other .data rfl) value
  | stackUnary op =>
    refine keeps_ask_bind fun a => keeps_ask_bind fun value => ?_
    refine (keeps_dropData (other .data rfl) 1).bind fun _ => ?_
    exact keeps_pushData (other .data rfl) value
  | stackJumpIf equal =>
    refine keeps_ask_bind fun order => keeps_ask_bind fun (a, b) => keeps_ask_bind fun result => ?_
    refine (keeps_dropData (other .data rfl) 2).bind fun _ => ?_
    exact goToIf (other .place rfl) _ order
  | read =>
    refine keeps_ask_bind fun v => keeps_ask_bind fun requested => ?_
    split
    · refine keeps_ask_bind fun _ => (keeps_nextLine (other .input rfl)).bind fun line => ?_
      exact keeps_store (other .frames rfl) v _
    · exact keeps_ask _
  | write => exact keeps_ask_bind fun value => keeps_emit (other .output rfl) _
  | print => exact keeps_ask_bind fun value => keeps_diagnose (other .diagnostics rfl) _
  | report => exact keeps_ask_bind fun text => keeps_diagnose (other .diagnostics rfl) text

theorem dispatch_keeps {part : Part} {p : Program} {i : Instruction}
    (h : part ∉ (Action.ofOpcode i.opcode).touched) : Keeps part (dispatch p i) := by
  unfold dispatch
  split
  · exact keeps_ask_bind fun code => keeps_pure _
  · exact (perform_keeps h).bind fun _ => keeps_pure _

/-- A step leaves alone what the instruction does not touch; to fetch it sets the place. -/
theorem step_keeps {part : Part} {p : Program} {i : Instruction} {s : State}
    (hi : p.after? s.pc = some i) (h : part ∉ (Action.ofOpcode i.opcode).touched) :
    part.Same { s with pc := i.order } (s.step p).2 := by
  rw [State.step, hi]
  dsimp only
  split
  · exact part.same_refl _
  · refine Part.Same.trans (t := { s with pc := i.order, executed := s.executed + 1 }) ?_ ?_
    · cases part <;> rfl
    · exact dispatch_keeps h _

theorem step_same {part : Part} {p : Program} {s : State} (hplace : part ≠ .place)
    (h : ∀ i, p.after? s.pc = some i → part ∉ (Action.ofOpcode i.opcode).touched) :
    part.Same s (s.step p).2 := by
  cases hi : p.after? s.pc with
  | none =>
    rw [State.step, hi]
    exact part.same_refl s
  | some i =>
    refine Part.Same.trans ?_ (step_keeps hi (h i hi))
    cases part with
    | place => exact absurd rfl hplace
    | frames | data | calls | input | output | diagnostics => rfl

end ThreeAddress.Machine
