import Mathlib.Data.List.Forall2
import ThreeAddress.Machine.Run
import ThreeAddress.Result

/-! Two machines side by side. Computations are coupled if they take related states to related
states and come to the same end; an instruction is coupled with itself at another place, in another
program, provided that its label leads to related places. -/

namespace ThreeAddress

structure Gate.Willing (g : Gate) : Prop where
  write : ∀ time taken offered, g.write time taken offered = none
  flush : ∀ time taken, g.flush time taken = none

theorem Gate.willing_default : Gate.Willing {} := ⟨fun _ _ _ => rfl, fun _ _ => rfl⟩

theorem Channel.write_of_willing {c : Channel} (h : c.gate.Willing) (time : Nat) (text : String) :
    c.write time text = .ok { c with taken := c.taken ++ text } := by
  rw [Channel.write, h.write]
  by_cases ht : text = ""
  · simp [ht]
  · simp [ht]

theorem Channel.flush_of_willing {c : Channel} (h : c.gate.Willing) (time : Nat) :
    c.flush time = .ok () := by
  rw [Channel.flush, h.flush]

def Instruction.moveTo (i : Instruction) (order : Order) : Instruction := { i with order := order }

namespace Machine

namespace Exec

variable {α β γ δ : Type} {R : State → State → Prop} {A : α → β → Prop} {B : γ → δ → Prop}

inductive Paired (A : α → β → Prop) : Except Fault α → Except Fault β → Prop where
  | ok {a : α} {b : β} : A a b → Paired A (.ok a) (.ok b)
  | error (fault : Fault) : Paired A (.error fault) (.error fault)

def Coupled (R : State → State → Prop) (A : α → β → Prop) (x : Exec α) (y : Exec β) : Prop :=
  ∀ s t, R s t → Paired A (x s).1 (y t).1 ∧ R (x s).2 (y t).2

theorem paired_eq {x y : Except Fault α} : Paired Eq x y ↔ x = y := by
  constructor
  · rintro (rfl | _) <;> rfl
  · rintro rfl
    cases x with
    | ok a => exact .ok rfl
    | error fault => exact .error fault

theorem Coupled.bind {x : Exec α} {y : Exec β} {g : α → Exec γ} {h : β → Exec δ}
    (hxy : Coupled R A x y) (hgh : ∀ a b, A a b → Coupled R B (g a) (h b)) :
    Coupled R B (x >>= g) (y >>= h) := by
  intro s t hst
  have hresult := hxy s t hst
  change Paired B (Exec.bind x g s).1 (Exec.bind y h t).1 ∧
    R (Exec.bind x g s).2 (Exec.bind y h t).2
  unfold Exec.bind
  generalize x s = r at hresult
  generalize y t = r' at hresult
  obtain ⟨a, s'⟩ := r
  obtain ⟨b, t'⟩ := r'
  obtain ⟨hpaired, hst'⟩ := hresult
  cases hpaired with
  | ok hab => exact hgh _ _ hab s' t' hst'
  | error fault => exact ⟨.error fault, hst'⟩

theorem coupled_pure {a : α} {b : β} (h : A a b) : Coupled R A (pure a) (pure b) :=
  fun _ _ hst => ⟨.ok h, hst⟩

theorem coupled_ask {f : State → Except Fault α} {g : State → Except Fault β}
    (h : ∀ s t, R s t → Paired A (f s) (g t)) : Coupled R A (ask f) (ask g) :=
  fun s t hst => ⟨h s t hst, hst⟩

theorem coupled_ask_bind {f g : State → Except Fault α} {k : α → Exec γ} {l : α → Exec δ}
    (h : ∀ s t, R s t → f s = g t) (hkl : ∀ a, Coupled R B (k a) (l a)) :
    Coupled R B (ask f >>= k) (ask g >>= l) := by
  refine (coupled_ask fun s t hst => paired_eq.mpr (h s t hst)).bind ?_
  rintro a _ rfl
  exact hkl a

theorem coupled_modify {f g : State → State} (h : ∀ s t, R s t → R (f s) (g t)) :
    Coupled R Eq (modify f) (modify g) :=
  fun s t hst => ⟨.ok rfl, h s t hst⟩

theorem flushDiagnostics_of_willing {s : State} (h : s.diagnostics.gate.Willing) :
    flushDiagnostics s = (.ok (), s) := by
  rw [flushDiagnostics, ask, Channel.flush_of_willing h]
  rfl

theorem diagnose_of_willing {s : State} (h : s.diagnostics.gate.Willing) (text : String) :
    diagnose text s = (.ok (), { s with
      diagnostics := ⟨s.diagnostics.taken ++ text, s.diagnostics.gate⟩ }) := by
  change Exec.bind (writeDiagnostics text) (fun _ => flushDiagnostics) s = _
  rw [Exec.bind, writeDiagnostics, Channel.write_of_willing h]
  exact flushDiagnostics_of_willing h

end Exec

/-- States that do the same as far as the outside can tell, from places that are related. Counts
may be related too; of the diagnostics only that they are never refused. -/
structure Corresponds (place : Order → Order → Prop) (count : Nat → Nat → Prop) (s t : State) :
    Prop where
  frames : s.frames = t.frames
  data : s.data = t.data
  calls : List.Forall₂ place s.calls t.calls
  pc : place s.pc t.pc
  executed : count s.executed t.executed
  input : s.input = t.input
  output : s.output = t.output
  willing : s.output.gate.Willing
  diagnosed : s.diagnostics.gate.Willing ∧ t.diagnostics.gate.Willing

namespace Corresponds

variable {place : Order → Order → Prop} {count : Nat → Nat → Prop} {s t : State}

theorem symbol (h : Corresponds place count s t) (i : Instruction) (position : Nat) :
    s.symbol i position = t.symbol i position := by
  rw [State.symbol, State.symbol, h.frames]

theorem symbolOrVacant (h : Corresponds place count s t) (i : Instruction) (position : Nat) :
    s.symbolOrVacant i position = t.symbolOrVacant i position := by
  rw [State.symbolOrVacant, State.symbolOrVacant, h.frames]

theorem ensureDeclared (h : Corresponds place count s t) (v : Variable) :
    s.ensureDeclared v = t.ensureDeclared v := by
  rw [State.ensureDeclared, State.ensureDeclared, h.frames]

theorem top (h : Corresponds place count s t) : s.top = t.top := by
  rw [State.top, State.top, h.data]

theorem topTwo (h : Corresponds place count s t) : s.topTwo = t.topTwo := by
  rw [State.topTwo, State.topTwo, h.data]

theorem exitCode (h : Corresponds place count s t) (i : Instruction) :
    s.exitCode i = t.exitCode i := by
  rw [State.exitCode, State.exitCode, h.symbol]

end Corresponds

open Exec

section Computations

variable {place : Order → Order → Prop} {count : Nat → Nat → Prop}

theorem coupled_goTo {a b : Order} (h : place a b) :
    Coupled (Corresponds place count) Eq (goTo a) (goTo b) :=
  coupled_modify fun _ _ hst => { hst with pc := h }

theorem coupled_changeFrames (f : Frames → Except Frames.Fault Frames) :
    Coupled (Corresponds place count) Eq (changeFrames f) (changeFrames f) := by
  intro s t hst
  unfold changeFrames
  rw [← hst.frames]
  cases f s.frames with
  | ok frames => exact ⟨.ok rfl, { hst with frames := rfl }⟩
  | error fault => exact ⟨.error _, hst⟩

theorem coupled_store (v : Variable) (value : Value) :
    Coupled (Corresponds place count) Eq (store v value) (store v value) :=
  coupled_changeFrames _

theorem coupled_pushData (value : Value) :
    Coupled (Corresponds place count) Eq (pushData value) (pushData value) :=
  coupled_modify fun _ _ hst => { hst with data := congrArg (value :: ·) hst.data }

theorem coupled_dropData (n : Nat) :
    Coupled (Corresponds place count) Eq (dropData n) (dropData n) :=
  coupled_modify fun _ _ hst => { hst with data := congrArg (List.drop n) hst.data }

theorem coupled_popData : Coupled (Corresponds place count) Eq popData popData := by
  intro s t hst
  unfold popData
  rw [← hst.data]
  cases hs : s.data with
  | nil => exact ⟨.error _, hst⟩
  | cons value rest => exact ⟨.ok rfl, { hst with data := rfl }⟩

theorem coupled_pushCall : Coupled (Corresponds place count) Eq pushCall pushCall :=
  coupled_modify fun _ _ hst => { hst with calls := .cons hst.pc hst.calls }

theorem coupled_popCall : Coupled (Corresponds place count) place popCall popCall := by
  intro s t hst
  unfold popCall
  have hcalls := hst.calls
  cases hs : s.calls with
  | nil =>
    rw [hs] at hcalls
    cases ht : t.calls with
    | nil => exact ⟨.error _, hst⟩
    | cons => rw [ht] at hcalls; nomatch hcalls
  | cons order rest =>
    rw [hs] at hcalls
    cases ht : t.calls with
    | nil => rw [ht] at hcalls; nomatch hcalls
    | cons order' rest' =>
      rw [ht] at hcalls
      cases hcalls with
      | cons horder hrest => exact ⟨.ok horder, { hst with calls := hrest }⟩

theorem coupled_nextLine : Coupled (Corresponds place count) Eq nextLine nextLine := by
  intro s t hst
  unfold nextLine
  rw [← hst.input]
  exact ⟨.ok rfl, { hst with input := rfl }⟩

theorem coupled_emit (text : String) :
    Coupled (Corresponds place count) Eq (emit text) (emit text) := by
  intro s t hst
  unfold emit
  rw [← hst.output, Channel.write_of_willing hst.willing, Channel.write_of_willing hst.willing]
  exact ⟨.ok rfl, { hst with output := rfl, willing := hst.willing }⟩

theorem coupled_diagnose (text text' : String) :
    Coupled (Corresponds place count) Eq (diagnose text) (diagnose text') := by
  intro s t hst
  rw [diagnose_of_willing hst.diagnosed.1, diagnose_of_willing hst.diagnosed.2]
  exact ⟨.ok rfl, { hst with diagnosed := hst.diagnosed }⟩

end Computations

/-! Instructions. -/

theorem perform_moveTo (p : Program) (i : Instruction) (order : Order) (action : Action) :
    perform p (i.moveTo order) action = perform p i action := by
  cases action <;> rfl

theorem dispatch_moveTo (p : Program) (i : Instruction) (order : Order) :
    dispatch p (i.moveTo order) = dispatch p i := by
  have hexit (s : State) : s.exitCode (i.moveTo order) = s.exitCode i := rfl
  simp only [dispatch, perform_moveTo, hexit]
  rfl

theorem paired_target {place : Order → Order → Prop} {p q : Program} {i : Instruction}
    (hpq : ∀ name a, i.get? 1 = some (.label name) → p.resolve name = .ok a →
      ∃ b, q.resolve name = .ok b ∧ place a b)
    (hqp : ∀ name b, i.get? 1 = some (.label name) → q.resolve name = .ok b →
      ∃ a, p.resolve name = .ok a) :
    Paired place (target p i 1) (target q i 1) := by
  rw [target, target]
  cases hname : i.labelAt 1 with
  | error fault => exact .error fault
  | ok name =>
    have hget := Instruction.operandOf_eq_ok.mp hname
    change Paired place ((p.resolve name).mapError fun _ => .unknownLabel name)
      ((q.resolve name).mapError fun _ => .unknownLabel name)
    cases ha : p.resolve name with
    | ok a =>
      obtain ⟨b, hb, hab⟩ := hpq name a hget ha
      rw [hb]
      exact .ok hab
    | error e =>
      cases hb : q.resolve name with
      | ok b =>
        obtain ⟨a, ha'⟩ := hqp name b hget hb
        rw [ha] at ha'
        nomatch ha'
      | error e' => exact .error _

section Dispatch

variable {place : Order → Order → Prop} {count : Nat → Nat → Prop} {p q : Program}
  {i : Instruction}

theorem perform_coupled (htarget : Paired place (target p i 1) (target q i 1)) (action : Action) :
    Coupled (Corresponds place count) Eq (perform p i action) (perform q i action) := by
  have destination {k l : Variable → Exec Unit}
      (h : ∀ v, Coupled (Corresponds place count) Eq (k v) (l v)) :
      Coupled (Corresponds place count) Eq ((i.variableAt 1 : Exec Variable) >>= k)
        ((i.variableAt 1 : Exec Variable) >>= l) :=
    coupled_ask_bind (fun _ _ _ => rfl) h
  have symbol (position : Nat) {k l : Value → Exec Unit}
      (h : ∀ value, Coupled (Corresponds place count) Eq (k value) (l value)) :
      Coupled (Corresponds place count) Eq (ask (fun s => s.symbol i position) >>= k)
        (ask (fun s => s.symbol i position) >>= l) :=
    coupled_ask_bind (fun _ _ hst => hst.symbol i position) h
  have computed {α : Type} (result : Except Operation.Fault α) {k l : α → Exec Unit}
      (h : ∀ value, Coupled (Corresponds place count) Eq (k value) (l value)) :
      Coupled (Corresponds place count) Eq ((compute i result : Exec α) >>= k)
        ((compute i result : Exec α) >>= l) :=
    coupled_ask_bind (fun _ _ _ => rfl) h
  have label {k l : Order → Exec Unit}
      (h : ∀ a b, place a b → Coupled (Corresponds place count) Eq (k a) (l b)) :
      Coupled (Corresponds place count) Eq ((target p i 1 : Exec Order) >>= k)
        ((target q i 1 : Exec Order) >>= l) :=
    (coupled_ask fun _ _ _ => htarget).bind h
  have goToIf (c : Prop) [Decidable c] {a b : Order} (h : place a b) :
      Coupled (Corresponds place count) Eq (if c then goTo a else pure ())
        (if c then goTo b else pure ()) := by
    split
    · exact coupled_goTo h
    · exact coupled_pure rfl
  cases action with
  | createFrame | pushFrame | popFrame => exact coupled_changeFrames _
  | declare => exact destination fun v => coupled_changeFrames _
  | call => exact label fun a b hab => coupled_pushCall.bind fun _ _ _ => coupled_goTo hab
  | returnBack => exact coupled_popCall.bind fun a b hab => coupled_goTo hab
  | proceed | exit => exact coupled_pure rfl
  | jump => exact label fun a b hab => coupled_goTo hab
  | jumpIf equal =>
    refine label fun a b hab => symbol 2 fun x => symbol 3 fun y => ?_
    exact computed _ fun result => goToIf _ hab
  | move => exact destination fun v => symbol 2 fun value => coupled_store v value
  | push => exact symbol 1 fun value => coupled_pushData value
  | pop =>
    refine destination fun v => coupled_ask_bind (fun _ _ hst => hst.ensureDeclared v) fun _ => ?_
    refine coupled_popData.bind ?_
    rintro value _ rfl
    exact coupled_store v value
  | clear => exact coupled_modify fun _ _ hst => { hst with data := rfl }
  | binary op =>
    refine destination fun v => symbol 2 fun x => symbol 3 fun y => ?_
    exact computed _ fun value => coupled_store v value
  | unary op =>
    exact destination fun v => symbol 2 fun x => computed _ fun value => coupled_store v value
  | setChar =>
    refine destination fun v => ?_
    refine coupled_ask_bind (fun _ _ hst => by rw [hst.frames]) fun current => ?_
    refine symbol 2 fun index => symbol 3 fun replacement => ?_
    exact computed _ fun value => coupled_store v value
  | typeOf =>
    refine destination fun v => coupled_ask_bind (fun _ _ hst => hst.symbolOrVacant i 2) ?_
    exact fun value => coupled_store v _
  | stackBinary op =>
    refine coupled_ask_bind (fun _ _ hst => hst.topTwo) fun (a, b) => computed _ fun value => ?_
    exact (coupled_dropData 2).bind fun _ _ _ => coupled_pushData value
  | stackUnary op =>
    refine coupled_ask_bind (fun _ _ hst => hst.top) fun a => computed _ fun value => ?_
    exact (coupled_dropData 1).bind fun _ _ _ => coupled_pushData value
  | stackJumpIf equal =>
    refine label fun a b hab => coupled_ask_bind (fun _ _ hst => hst.topTwo) fun (x, y) => ?_
    refine computed _ fun result => (coupled_dropData 2).bind fun _ _ _ => ?_
    exact goToIf _ hab
  | read =>
    refine destination fun v => coupled_ask_bind (fun _ _ _ => rfl) fun requested => ?_
    split
    · refine coupled_ask_bind (fun _ _ hst => hst.ensureDeclared v) fun _ => ?_
      refine coupled_nextLine.bind ?_
      rintro line _ rfl
      exact coupled_store v _
    · exact coupled_ask fun _ _ _ => .error _
  | write => exact symbol 1 fun value => coupled_emit _
  | print => exact symbol 1 fun value => coupled_diagnose _ _
  | report =>
    refine Coupled.bind (A := fun _ _ => True) (coupled_ask fun _ _ _ => .ok trivial) ?_
    exact fun text text' _ => coupled_diagnose text text'

theorem dispatch_coupled (htarget : Paired place (target p i 1) (target q i 1)) :
    Coupled (Corresponds place count) Eq (dispatch p i) (dispatch q i) := by
  unfold dispatch
  split
  · exact coupled_ask_bind (fun _ _ hst => hst.exitCode i) fun code => coupled_pure rfl
  · exact (perform_coupled htarget _).bind fun _ _ _ => coupled_pure rfl

/-- Two machines that fetch the same instruction, be it at different places, go on alike. -/
theorem step_corresponds {s t : State} {order : Order} (hs : p.after? s.pc = some i)
    (ht : q.after? t.pc = some (i.moveTo order))
    (htarget : Paired place (target p i 1) (target q i 1))
    (hcount : ∀ m n, count m n → count (m + 1) (n + 1))
    (h : Corresponds place count { s with pc := i.order } { t with pc := order }) :
    ∃ result : Except Fault Status,
      (s.step p).1 = result.mapError (Failure.mk i.order) ∧
      (t.step q).1 = result.mapError (Failure.mk order) ∧
      Corresponds place count (s.step p).2 (t.step q).2 := by
  have harity : (i.moveTo order).arityFault? = i.arityFault? := rfl
  rw [State.step, hs, State.step, ht]
  simp only [harity, dispatch_moveTo]
  cases hfault : i.arityFault? with
  | some fault => exact ⟨.error fault, rfl, rfl, h⟩
  | none =>
    have hcounted : Corresponds place count
        { s with pc := i.order, executed := s.executed + 1 }
        { t with pc := order, executed := t.executed + 1 } :=
      { h with executed := hcount _ _ h.executed }
    obtain ⟨hpaired, hst⟩ := dispatch_coupled htarget _ _ hcounted
    exact ⟨_, rfl, congrArg (Except.mapError (Failure.mk order)) (paired_eq.mp hpaired).symm, hst⟩

end Dispatch

end Machine

end ThreeAddress
