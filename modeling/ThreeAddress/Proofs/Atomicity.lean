import ThreeAddress.Machine.Step
import ThreeAddress.Proofs.ProgramStore

/-! A step that fails changes nothing but the place and the count. A computation that first looks
and only then changes is atomic by its form; one that changes and then stores is atomic because
it has made sure before that the variable is declared. -/

namespace ThreeAddress

theorem Frames.assign_of_lookup {fs : Frames} {v : Variable} {slot : Option Value} (value : Value)
    (h : fs.lookup v = .ok slot) : ∃ gs, fs.assign v value = .ok gs := by
  obtain ⟨f, hf, h⟩ := bind_eq_ok.mp h
  have hc : f.contains v.name = true := by
    rw [Table.contains]
    cases hg : f.get? v.name with
    | none => simp [hg] at h
    | some _ => rfl
  exact ⟨_, by simp [assign, hf, hc, bind, Except.bind]; rfl⟩

theorem Frames.assign_of_lookup_error {fs : Frames} {v : Variable} {fault : Frames.Fault}
    (value : Value) (h : fs.lookup v = .error fault) : fs.assign v value = .error fault := by
  rcases bind_eq_error.mp h with hf | ⟨f, hf, h⟩
  · rw [assign, hf]
    rfl
  · cases hg : f.get? v.name with
    | some slot => simp [hg] at h
    | none =>
      simp only [hg] at h
      injection h with h
      simp [assign, hf, Table.contains, hg, bind, Except.bind, h]

namespace Machine

/-- The faults of an instruction whose operands do not fit its arity. -/
def Fault.isArity : Fault → Bool
  | .missingArgument _ _ | .unexpectedArgument _ _ => true
  | _ => false

namespace Exec

variable {α β : Type}

theorem apply_bind_eq_error {x : Exec α} {g : α → Exec β} {s t : State} {fault : Fault} :
    (x >>= g) s = (.error fault, t) ↔ x s = (.error fault, t) ∨
      ∃ a u, x s = (.ok a, u) ∧ g a u = (.error fault, t) := by
  change Exec.bind x g s = _ ↔ _
  unfold Exec.bind
  split
  · rename_i a u hx
    constructor
    · intro h
      exact Or.inr ⟨a, u, hx, h⟩
    · rintro (h | ⟨b, w, h, hg⟩)
      · simp [hx] at h
      · rw [hx, Prod.mk.injEq, Except.ok.injEq] at h
        obtain ⟨rfl, rfl⟩ := h
        exact hg
  · rename_i e u hx
    simp [hx]

theorem ask_eq_ok {f : State → Except Fault α} {s t : State} {a : α} :
    ask f s = (.ok a, t) ↔ f s = .ok a ∧ s = t := Prod.mk.injEq ..▸ Iff.rfl

theorem ask_eq_error {f : State → Except Fault α} {s t : State} {fault : Fault} :
    ask f s = (.error fault, t) ↔ f s = .error fault ∧ s = t := Prod.mk.injEq .. ▸ Iff.rfl

/-- A failure leaves the state as it was, and is not one of arity. -/
def Atomic (x : Exec α) : Prop :=
  ∀ s t fault, x s = (.error fault, t) → t = s ∧ fault.isArity = false

def Total (x : Exec α) : Prop := ∀ s, ∃ a t, x s = (.ok a, t)

def KeepsFrames (x : Exec α) : Prop := ∀ s a t, x s = (.ok a, t) → t.frames = s.frames

theorem Total.atomic {x : Exec α} (h : Total x) : Atomic x := by
  intro s t fault hx
  obtain ⟨a, u, ha⟩ := h s
  simp [hx] at ha

theorem Total.bind {x : Exec α} {g : α → Exec β} (hx : Total x) (hg : ∀ a, Total (g a)) :
    Total (x >>= g) := by
  intro s
  obtain ⟨a, t, ha⟩ := hx s
  obtain ⟨b, u, hb⟩ := hg a t
  refine ⟨b, u, ?_⟩
  change Exec.bind x g s = _
  rw [Exec.bind, ha]
  exact hb

theorem Atomic.bind {x : Exec α} {g : α → Exec β} (hx : Atomic x) (hg : ∀ a, Total (g a)) :
    Atomic (x >>= g) := by
  intro s t fault h
  rcases apply_bind_eq_error.mp h with h | ⟨a, u, -, h⟩
  · exact hx s t fault h
  · obtain ⟨b, w, hb⟩ := hg a u
    simp [h] at hb

theorem atomic_of_cases {x : Exec α} (h : ∀ s, (∃ a t, x s = (.ok a, t)) ∨
    ∃ fault, x s = (.error fault, s) ∧ fault.isArity = false) : Atomic x := by
  intro s t fault hx
  rcases h s with ⟨a, u, ha⟩ | ⟨e, he, harity⟩
  · simp [hx] at ha
  · rw [hx, Prod.mk.injEq, Except.error.injEq] at he
    obtain ⟨rfl, rfl⟩ := he
    exact ⟨rfl, harity⟩

theorem atomic_ask {f : State → Except Fault α}
    (hf : ∀ s fault, f s = .error fault → fault.isArity = false) : Atomic (ask f) := by
  intro s t fault h
  obtain ⟨he, rfl⟩ := ask_eq_error.mp h
  exact ⟨rfl, hf s fault he⟩

theorem atomic_ask_bind {f : State → Except Fault α} {g : α → Exec β}
    (hf : ∀ s fault, f s = .error fault → fault.isArity = false) (hg : ∀ a, Atomic (g a)) :
    Atomic (ask f >>= g) := by
  intro s t fault h
  rcases apply_bind_eq_error.mp h with h | ⟨a, u, ha, h⟩
  · exact atomic_ask hf s t fault h
  · obtain ⟨-, rfl⟩ := ask_eq_ok.mp ha
    exact hg a s t fault h

theorem total_pure (a : α) : Total (pure a : Exec α) := fun s => ⟨a, s, rfl⟩

theorem total_modify (f : State → State) : Total (modify f) := fun s => ⟨(), f s, rfl⟩

theorem total_goTo (order : Order) : Total (goTo order) := total_modify _

theorem total_nextLine : Total nextLine := fun _ => ⟨_, _, rfl⟩

theorem keepsFrames_nextLine : KeepsFrames nextLine := by
  intro s a t h
  obtain ⟨-, rfl⟩ := Prod.mk.inj h
  rfl

theorem atomic_popData : Atomic popData := by
  refine atomic_of_cases fun s => ?_
  unfold popData
  split
  · exact Or.inl ⟨_, _, rfl⟩
  · exact Or.inr ⟨_, rfl, rfl⟩

theorem keepsFrames_popData : KeepsFrames popData := by
  intro s a t h
  unfold popData at h
  split at h
  · obtain ⟨-, rfl⟩ := Prod.mk.inj h
    rfl
  · simp at h

theorem atomic_popCall : Atomic popCall := by
  refine atomic_of_cases fun s => ?_
  unfold popCall
  split
  · exact Or.inl ⟨_, _, rfl⟩
  · exact Or.inr ⟨_, rfl, rfl⟩

theorem atomic_changeFrames (f : Frames → Except Frames.Fault Frames) :
    Atomic (changeFrames f) := by
  refine atomic_of_cases fun s => ?_
  unfold changeFrames
  split
  · exact Or.inl ⟨_, _, rfl⟩
  · exact Or.inr ⟨_, rfl, rfl⟩

theorem atomic_emit (text : String) : Atomic (emit text) := by
  refine atomic_of_cases fun s => ?_
  unfold emit
  split
  · exact Or.inl ⟨_, _, rfl⟩
  · exact Or.inr ⟨_, rfl, rfl⟩

/-- Between making sure that a variable is declared and storing to it, anything may change that is
atomic itself and leaves the frames alone: the store cannot fail any more. -/
theorem atomic_store_declared {v : Variable} {x : Exec α} {value : α → Value} (hx : Atomic x)
    (hf : KeepsFrames x) :
    Atomic (do ask fun s => s.ensureDeclared v; let a ← x; store v (value a)) := by
  intro s t fault h
  rcases apply_bind_eq_error.mp h with h | ⟨_, u, hd, h⟩
  · refine atomic_ask ?_ s t fault h
    intro s fault hs
    obtain ⟨d, -, rfl⟩ := mapError_eq_error.mp hs
    rfl
  · obtain ⟨hv, rfl⟩ := ask_eq_ok.mp hd
    rcases apply_bind_eq_error.mp h with h | ⟨a, u, ha, h⟩
    · exact hx s t fault h
    · obtain ⟨slot, hslot, -⟩ := map_eq_ok.mp (mapError_eq_ok.mp hv)
      obtain ⟨gs, hgs⟩ := Frames.assign_of_lookup (value a) hslot
      rw [← hf s a u ha] at hgs
      simp [store, changeFrames, hgs] at h

end Exec

/-! The operands that an action looks at are there once the arity has been checked. -/

def Action.operands : Action → Nat
  | .createFrame | .pushFrame | .popFrame | .returnBack | .clear | .stackBinary _
  | .stackUnary _ | .report => 0
  | .proceed | .declare | .call | .jump | .exit | .push | .pop | .stackJumpIf _ | .write
  | .print => 1
  | .move | .unary _ | .typeOf | .read => 2
  | .jumpIf _ | .binary _ | .setChar => 3

theorem operands_ofOpcode (opcode : Opcode) :
    (Action.ofOpcode opcode).operands = opcode.arity := by
  cases opcode <;> rfl

def Provides (i : Instruction) (n : Nat) : Prop :=
  ∀ position, 1 ≤ position → position ≤ n → ∃ a, i.get? position = some a

theorem arity_le_three (opcode : Opcode) : opcode.arity ≤ 3 := by
  cases opcode <;> decide

theorem provides_of_arityFault? {i : Instruction} (h : i.arityFault? = none) :
    Provides i i.opcode.arity := by
  intro position hpos hle
  have harity := arity_le_three i.opcode
  have hmem : position ∈ [1, 2, 3] := by
    simp only [List.mem_cons, List.not_mem_nil, or_false]
    omega
  have hnone := List.findSome?_eq_none_iff.mp h position hmem
  cases hg : i.get? position with
  | some a => exact ⟨a, rfl⟩
  | none => simp [hg, hle] at hnone

theorem isArity_of_arityFault? {i : Instruction} {fault : Fault}
    (h : i.arityFault? = some fault) : fault.isArity = true := by
  obtain ⟨position, -, hf⟩ := List.exists_of_findSome?_eq_some h
  split at hf <;> split at hf
  · injection hf with hf
    exact hf ▸ rfl
  · nomatch hf
  · injection hf with hf
    exact hf ▸ rfl
  · nomatch hf

section Operands

variable {i : Instruction} {position : Nat} (hi : ∃ a, i.get? position = some a) {fault : Fault}

include hi

theorem isArity_operand_bind {α : Type} {f : Operand → Except Fault α}
    (hf : ∀ a fault, f a = .error fault → fault.isArity = false)
    (h : (i.operand position >>= f) = .error fault) : fault.isArity = false := by
  obtain ⟨a, ha⟩ := hi
  rw [show i.operand position = .ok a by rw [Instruction.operand, ha]] at h
  exact hf a fault h

theorem isArity_operandOf {α : Type} {kind : OperandKind α}
    (h : i.operandOf position kind = .error fault) : fault.isArity = false := by
  refine isArity_operand_bind hi ?_ h
  intro a fault h
  split at h
  · cases h
  · cases h
    rfl

theorem isArity_target {p : Program} (h : target p i position = .error fault) :
    fault.isArity = false := by
  rcases bind_eq_error.mp h with h | ⟨name, -, h⟩
  · exact isArity_operandOf hi h
  · obtain ⟨d, -, rfl⟩ := mapError_eq_error.mp h
    rfl

theorem isArity_symbolBy {α : Type} {constant : Value → α}
    {find : Variable → Except Frames.Fault α}
    (h : i.symbolBy position constant find = .error fault) : fault.isArity = false := by
  refine isArity_operand_bind hi ?_ h
  intro a fault h
  cases a with
  | const value => nomatch h
  | var v =>
    obtain ⟨d, -, rfl⟩ := mapError_eq_error.mp h
    rfl
  | label name | type tag => injection h with h; exact h ▸ rfl

end Operands

theorem isArity_compute {α : Type} {i : Instruction} {result : Except Operation.Fault α}
    {fault : Fault} (h : compute i result = .error fault) : fault.isArity = false := by
  obtain ⟨d, -, rfl⟩ := mapError_eq_error.mp h
  rfl

theorem isArity_top {s : State} {fault : Fault} (h : s.top = .error fault) :
    fault.isArity = false := by
  unfold State.top at h
  split at h
  · nomatch h
  · injection h with h
    exact h ▸ rfl

theorem isArity_topTwo {s : State} {fault : Fault} (h : s.topTwo = .error fault) :
    fault.isArity = false := by
  unfold State.topTwo at h
  split at h
  · nomatch h
  · injection h with h
    exact h ▸ rfl

open Exec

/-- All actions but the two that write diagnostics. -/
theorem perform_atomic {p : Program} {i : Instruction} {action : Action}
    (hi : Provides i action.operands) (hprint : action ≠ .print) (hreport : action ≠ .report) :
    Atomic (perform p i action) := by
  have symbol (k : Nat) (hk : (decide (1 ≤ k) && decide (k ≤ action.operands)) = true) :
      ∀ s fault, State.symbol s i k = .error fault → fault.isArity = false := by
    intro s fault h
    rw [Bool.and_eq_true, decide_eq_true_eq, decide_eq_true_eq] at hk
    exact isArity_symbolBy (hi k hk.1 hk.2) h
  have label (h1 : decide (1 ≤ action.operands) = true) :
      ∀ (_ : State) fault, target p i 1 = .error fault → fault.isArity = false :=
    fun _ fault h => isArity_target (hi 1 (Nat.le_refl 1) (of_decide_eq_true h1)) h
  have destination (h1 : decide (1 ≤ action.operands) = true) :
      ∀ (_ : State) fault, i.variableAt 1 = .error fault → fault.isArity = false :=
    fun _ fault h => isArity_operandOf (hi 1 (Nat.le_refl 1) (of_decide_eq_true h1)) h
  have computed {α : Type} (result : Except Operation.Fault α) :
      ∀ (_ : State) fault, compute i result = .error fault → fault.isArity = false :=
    fun _ fault h => isArity_compute h
  have stored (v : Variable) (value : Value) : Atomic (store v value) := atomic_changeFrames _
  cases action with
  | createFrame => exact atomic_changeFrames fun fs => .ok fs.create
  | pushFrame | popFrame => exact atomic_changeFrames _
  | declare => exact atomic_ask_bind (destination rfl) fun v => atomic_changeFrames _
  | call =>
    refine atomic_ask_bind (label rfl) fun order => Total.atomic ?_
    exact Total.bind (total_modify _) fun _ => total_goTo order
  | returnBack => exact atomic_popCall.bind total_goTo
  | proceed | exit => exact (total_pure ()).atomic
  | jump => exact atomic_ask_bind (label rfl) fun order => (total_goTo order).atomic
  | jumpIf equal =>
    refine atomic_ask_bind (label rfl) fun order => ?_
    refine atomic_ask_bind (symbol 2 rfl) fun a => ?_
    refine atomic_ask_bind (symbol 3 rfl) fun b => ?_
    refine atomic_ask_bind (computed _) fun result => Total.atomic ?_
    split
    · exact total_goTo order
    · exact total_pure ()
  | move =>
    refine atomic_ask_bind (destination rfl) fun v => ?_
    exact atomic_ask_bind (symbol 2 rfl) fun value => stored v value
  | push =>
    exact atomic_ask_bind (symbol 1 rfl) fun value => (total_modify _).atomic
  | pop =>
    refine atomic_ask_bind (destination rfl) fun v => ?_
    exact atomic_store_declared atomic_popData keepsFrames_popData
  | clear => exact (total_modify _).atomic
  | binary op =>
    refine atomic_ask_bind (destination rfl) fun v => ?_
    refine atomic_ask_bind (symbol 2 rfl) fun a => ?_
    refine atomic_ask_bind (symbol 3 rfl) fun b => ?_
    exact atomic_ask_bind (computed _) fun value => stored v value
  | unary op =>
    refine atomic_ask_bind (destination rfl) fun v => ?_
    refine atomic_ask_bind (symbol 2 rfl) fun a => ?_
    exact atomic_ask_bind (computed _) fun value => stored v value
  | setChar =>
    refine atomic_ask_bind (destination rfl) fun v => ?_
    refine atomic_ask_bind ?_ fun current => ?_
    · intro s fault h
      obtain ⟨d, -, rfl⟩ := mapError_eq_error.mp h
      rfl
    refine atomic_ask_bind (symbol 2 rfl) fun index => ?_
    refine atomic_ask_bind (symbol 3 rfl) fun replacement => ?_
    exact atomic_ask_bind (computed _) fun value => stored v value
  | typeOf =>
    refine atomic_ask_bind (destination rfl) fun v => ?_
    refine atomic_ask_bind ?_ fun value => stored v _
    exact fun s fault h => isArity_symbolBy (hi 2 (by decide) (by decide)) h
  | stackBinary op =>
    refine atomic_ask_bind (fun s fault => isArity_topTwo) fun (a, b) => ?_
    refine atomic_ask_bind (computed _) fun value => Total.atomic ?_
    exact Total.bind (total_modify _) fun _ => total_modify _
  | stackUnary op =>
    refine atomic_ask_bind (fun s fault => isArity_top) fun a => ?_
    refine atomic_ask_bind (computed _) fun value => Total.atomic ?_
    exact Total.bind (total_modify _) fun _ => total_modify _
  | stackJumpIf equal =>
    refine atomic_ask_bind (label rfl) fun order => ?_
    refine atomic_ask_bind (fun s fault => isArity_topTwo) fun (a, b) => ?_
    refine atomic_ask_bind (computed _) fun result => Total.atomic ?_
    refine Total.bind (total_modify _) fun _ => ?_
    split
    · exact total_goTo order
    · exact total_pure ()
  | read =>
    refine atomic_ask_bind (destination rfl) fun v => ?_
    refine atomic_ask_bind ?_ fun requested => ?_
    · exact fun _ fault h => isArity_operandOf (hi 2 (by decide) (by decide)) h
    split
    · exact atomic_store_declared total_nextLine.atomic keepsFrames_nextLine
    · exact atomic_ask fun s fault h => by injection h with h; exact h ▸ rfl
  | write =>
    exact atomic_ask_bind (symbol 1 rfl) fun value => atomic_emit _
  | print => exact absurd rfl hprint
  | report => exact absurd rfl hreport

/-! Diagnostics are the exception: a text that was taken stays, though the flush be refused. -/

def State.diagnosticText? (s : State) (i : Instruction) : Option String :=
  match i.opcode with
  | .dPrint => (s.symbol i 1).toOption.map Value.render
  | .breakpoint => some s.report
  | _ => none

/-- The instruction writes diagnostics that are taken, but the flush after them is refused. -/
def State.FlushRefused (s : State) (i : Instruction) (text : String) : Prop :=
  i.arityFault? = none ∧ s.diagnosticText? i = some text ∧
    ∃ channel reason, s.diagnostics.write s.executed text = .ok channel ∧
      channel.flush s.executed = .error reason

theorem write_eq_ok {c d : Channel} {time : Nat} {text : String} (h : c.write time text = .ok d) :
    d.taken = c.taken ++ text ∧ d.gate = c.gate := by
  unfold Channel.write at h
  split at h
  · rename_i ht
    injection h with h
    subst h
    exact ⟨by rw [ht, String.append_empty], rfl⟩
  · split at h
    · nomatch h
    · injection h with h
      subst h
      exact ⟨rfl, rfl⟩

theorem diagnose_eq_error {s t : State} {text : String} {fault : Fault}
    (h : diagnose text s = (.error fault, t)) : fault.isArity = false ∧
      ((t = s ∧ ∃ reason, s.diagnostics.write s.executed text = .error reason) ∨
        ∃ channel reason, s.diagnostics.write s.executed text = .ok channel ∧
          channel.flush s.executed = .error reason ∧ t = { s with diagnostics := channel }) := by
  rcases apply_bind_eq_error.mp h with h | ⟨_, u, hw, h⟩
  · unfold writeDiagnostics at h
    split at h
    · simp at h
    · rename_i reason hr
      rw [Prod.mk.injEq, Except.error.injEq] at h
      obtain ⟨rfl, rfl⟩ := h
      exact ⟨rfl, Or.inl ⟨rfl, reason, hr⟩⟩
  · unfold writeDiagnostics at hw
    split at hw
    · rename_i channel hc
      rw [Prod.mk.injEq] at hw
      obtain ⟨-, rfl⟩ := hw
      obtain ⟨hf, rfl⟩ := ask_eq_error.mp h
      obtain ⟨reason, hr, rfl⟩ := mapError_eq_error.mp hf
      exact ⟨rfl, Or.inr ⟨channel, reason, hc, hr, rfl⟩⟩
    · simp at hw

theorem ofOpcode_eq_print {opcode : Opcode} :
    Action.ofOpcode opcode = .print ↔ opcode = .dPrint := by
  cases opcode <;> simp [Action.ofOpcode]

theorem ofOpcode_eq_report {opcode : Opcode} :
    Action.ofOpcode opcode = .report ↔ opcode = .breakpoint := by
  cases opcode <;> simp [Action.ofOpcode]

theorem isArity_exitCode {s : State} {i : Instruction} {fault : Fault} (hi : Provides i 1)
    (h : s.exitCode i = .error fault) : fault.isArity = false := by
  unfold State.exitCode at h
  cases hs : s.symbol i 1 with
  | error e =>
    rw [hs] at h
    injection h with h
    exact h ▸ isArity_symbolBy (hi 1 (Nat.le_refl 1) (Nat.le_refl 1)) hs
  | ok value =>
    simp only [hs, bind, Except.bind] at h
    split at h
    · split at h
      · nomatch h
      · injection h with h
        exact h ▸ rfl
    · injection h with h
      exact h ▸ rfl

/-- What a failing instruction leaves behind: nothing, unless its diagnostics were taken. -/
structure Undone (i : Instruction) (s t : State) : Prop where
  rest : ∃ channel, t = { s with diagnostics := channel }
  lingering : ∀ text, s.FlushRefused i text →
    t.diagnostics.taken = s.diagnostics.taken ++ text
  untouched : (∀ text, ¬ s.FlushRefused i text) → t = s

theorem undone_self {i : Instruction} {s : State} (h : ∀ text, ¬ s.FlushRefused i text) :
    Undone i s s :=
  ⟨⟨s.diagnostics, rfl⟩, fun text ht => absurd ht (h text), fun _ => rfl⟩

theorem undone_diagnose {i : Instruction} {s t : State} {text : String} {fault : Fault}
    (hi : i.arityFault? = none) (ht : s.diagnosticText? i = some text)
    (h : diagnose text s = (.error fault, t)) : fault.isArity = false ∧ Undone i s t := by
  have only {other : String} (ho : s.FlushRefused i other) : other = text :=
    Option.some.inj (ho.2.1.symm.trans ht)
  obtain ⟨harity, ⟨rfl, reason, hr⟩ | ⟨channel, reason, hc, hf, rfl⟩⟩ := diagnose_eq_error h
  · refine ⟨harity, undone_self ?_⟩
    rintro other ho
    obtain rfl := only ho
    obtain ⟨-, -, channel, -, hc, -⟩ := ho
    simp [hr] at hc
  · refine ⟨harity, ⟨channel, rfl⟩, ?_, fun hn => ?_⟩
    · intro other ho
      obtain rfl := only ho
      exact (write_eq_ok hc).1
    · exact absurd ⟨hi, ht, channel, reason, hc, hf⟩ (hn text)

theorem flushRefused_opcode {i : Instruction} {s : State} {text : String}
    (h : s.FlushRefused i text) : i.opcode = .dPrint ∨ i.opcode = .breakpoint := by
  obtain ⟨-, ht, -⟩ := h
  unfold State.diagnosticText? at ht
  split at ht
  · rename_i ho
    exact Or.inl ho
  · rename_i ho
    exact Or.inr ho
  · nomatch ht

section Dispatch

variable {p : Program} {i : Instruction} {s t : State} {fault : Fault}

theorem dispatch_print_eq_error (hi : i.arityFault? = none)
    (hprint : Action.ofOpcode i.opcode = .print) (h : dispatch p i s = (.error fault, t)) :
    fault.isArity = false ∧ Undone i s t := by
  have hop := ofOpcode_eq_print.mp hprint
  simp only [dispatch, hprint, perform] at h
  rcases apply_bind_eq_error.mp h with h | ⟨_, _, _, h⟩
  · rcases apply_bind_eq_error.mp h with h | ⟨value, u, hv, h⟩
    · obtain ⟨hs, rfl⟩ := ask_eq_error.mp h
      have hprov := provides_of_arityFault? hi
      rw [hop] at hprov
      refine ⟨isArity_symbolBy (hprov 1 (Nat.le_refl 1) (Nat.le_refl 1)) hs, undone_self ?_⟩
      rintro text ⟨-, ht, -⟩
      simp [State.diagnosticText?, hop, hs, Except.toOption] at ht
    · obtain ⟨hs, rfl⟩ := ask_eq_ok.mp hv
      refine undone_diagnose hi ?_ h
      simp [State.diagnosticText?, hop, hs, Except.toOption]
  · nomatch h

theorem dispatch_report_eq_error (hi : i.arityFault? = none)
    (hreport : Action.ofOpcode i.opcode = .report) (h : dispatch p i s = (.error fault, t)) :
    fault.isArity = false ∧ Undone i s t := by
  have hop := ofOpcode_eq_report.mp hreport
  simp only [dispatch, hreport, perform] at h
  rcases apply_bind_eq_error.mp h with h | ⟨_, _, _, h⟩
  · rcases apply_bind_eq_error.mp h with h | ⟨text, u, hv, h⟩
    · nomatch h
    · obtain ⟨hs, rfl⟩ := ask_eq_ok.mp hv
      injection hs with hs
      subst hs
      exact undone_diagnose hi (by simp [State.diagnosticText?, hop]) h
  · nomatch h

theorem dispatch_atomic (hi : i.arityFault? = none) (hprint : Action.ofOpcode i.opcode ≠ .print)
    (hreport : Action.ofOpcode i.opcode ≠ .report) : Atomic (dispatch p i) := by
  have hprov := provides_of_arityFault? hi
  rw [← operands_ofOpcode] at hprov
  unfold dispatch
  split
  · rename_i hexit
    rw [hexit] at hprov
    refine Atomic.bind (atomic_ask fun s fault => isArity_exitCode hprov) ?_
    exact fun code => total_pure _
  · exact Atomic.bind (perform_atomic hprov hprint hreport) fun _ => total_pure _

theorem dispatch_eq_error (hi : i.arityFault? = none) (h : dispatch p i s = (.error fault, t)) :
    fault.isArity = false ∧ Undone i s t := by
  by_cases hprint : Action.ofOpcode i.opcode = .print
  · exact dispatch_print_eq_error hi hprint h
  by_cases hreport : Action.ofOpcode i.opcode = .report
  · exact dispatch_report_eq_error hi hreport h
  obtain ⟨rfl, harity⟩ := dispatch_atomic hi hprint hreport s t fault h
  refine ⟨harity, undone_self fun text ht => ?_⟩
  rcases flushRefused_opcode ht with ho | ho
  · exact hprint (ofOpcode_eq_print.mpr ho)
  · exact hreport (ofOpcode_eq_report.mpr ho)

end Dispatch

/-- A failing step is a step that has not been made, but for the place, which is that of the
instruction that was fetched, for the count, and for diagnostics whose flush was refused. -/
theorem failing_step_undone {p : Program} (hp : p.Reachable) {s t : State} {e : Failure}
    (h : s.step p = (.error e, t)) :
    ∃ i, p.IsNext s.pc i ∧ t.pc = i.order ∧ e.order = i.order ∧
      t.frames = s.frames ∧ t.data = s.data ∧ t.calls = s.calls ∧ t.input = s.input ∧
      t.output = s.output ∧
      t.executed = (if e.fault.isArity then s.executed else s.executed + 1) ∧
      (∀ text, State.FlushRefused { s with pc := i.order, executed := s.executed + 1 } i text →
        t.diagnostics.taken = s.diagnostics.taken ++ text) ∧
      ((∀ text, ¬ State.FlushRefused { s with pc := i.order, executed := s.executed + 1 } i text) →
        t.diagnostics = s.diagnostics) := by
  unfold State.step at h
  split at h
  · nomatch h
  rename_i i hnext
  refine ⟨i, Program.isNext_of_after? (Program.reachable_wellFormed hp) hnext, ?_⟩
  dsimp only at h
  split at h
  · rename_i fault hfault
    rw [Prod.mk.injEq, Except.error.injEq] at h
    obtain ⟨rfl, rfl⟩ := h
    refine ⟨rfl, rfl, rfl, rfl, rfl, rfl, rfl, by simp [isArity_of_arityFault? hfault], ?_,
      fun _ => rfl⟩
    rintro text ⟨hnone, -⟩
    rw [hfault] at hnone
    nomatch hnone
  · rename_i hfits
    generalize hd : dispatch p i { s with pc := i.order, executed := s.executed + 1 } = d at h
    obtain ⟨result, u⟩ := d
    rw [Prod.mk.injEq] at h
    obtain ⟨hresult, rfl⟩ := h
    obtain ⟨fault, rfl, rfl⟩ := mapError_eq_error.mp hresult
    obtain ⟨harity, ⟨channel, rfl⟩, hlinger, huntouched⟩ := dispatch_eq_error hfits hd
    refine ⟨rfl, rfl, rfl, rfl, rfl, rfl, rfl, by simp [harity], hlinger, ?_⟩
    intro hquiet
    have hsame := congrArg State.diagnostics (huntouched hquiet)
    exact hsame

/-- A value that cannot be popped into an undeclared variable stays on the stack. -/
theorem pop_into_undeclared_undone :
    let x : Variable := ⟨.global, "x"⟩
    let i : Instruction := { order := 3, opcode := .popS, arg1 := some (.var x) }
    let p : Program := ⟨⟨[(3, i)]⟩, .empty, 3⟩
    let s : State := { data := [.int 5] }
    p.Reachable ∧ ∃ t, s.step p = (.error ⟨3, .frames (.undeclared x)⟩, t) ∧
      t.data = [.int 5] ∧ t.pc = 3 ∧ t.executed = 1 := by
  intro x i p s
  have hp : p.Reachable :=
    Program.reachable_ofInstructions (show Program.ofInstructions [i] = .ok p from rfl)
  have hs : s.step p = (.error ⟨3, .frames (.undeclared x)⟩, { s with pc := 3, executed := 1 }) :=
    rfl
  obtain ⟨i, -, hpc, ho, -, hd, -, -, -, hx, -⟩ := failing_step_undone hp hs
  exact ⟨hp, _, hs, hd, hpc.trans ho.symm, hx⟩

end Machine

end ThreeAddress
