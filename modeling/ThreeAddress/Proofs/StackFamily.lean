import ThreeAddress.Machine.Run
import ThreeAddress.Proofs.Atomicity

/-! The instructions on the data stack compute what their counterparts with operands compute.
Each instruction of the two forms gets one equation, in which a fault counts by its category; the
equations of the two forms then come to the same function of the frames. -/

namespace ThreeAddress.Machine

open Exec

/-- The category of a fault and the frames at that time. -/
abbrev Blame := ExitCategory × Frames

def blamed {ε α : Type} (fs : Frames) (category : ε → ExitCategory) (x : Except ε α) :
    Except Blame α :=
  x.mapError fun fault => (category fault, fs)

def evaluate (fs : Frames) : Operand → Except Blame Value
  | .const value => .ok value
  | .var v => blamed fs (fun fault => (Fault.frames fault).category) (fs.read v)
  | .label _ | .type _ => .error (.malformedProgram, fs)

def assigned (fs : Frames) (v : Variable) (value : Value) : Except Blame Frames :=
  blamed fs (fun fault => (Fault.frames fault).category) (fs.assign v value)

/-- The category of an operation's fault does not depend on the opcode, so any will do. -/
def computed {α : Type} (fs : Frames) (result : Except Operation.Fault α) : Except Blame α :=
  blamed fs (fun fault => (Fault.operation .label fault).category) result

def binaryEffect (op : Operation.Binary) (v : Variable) (a b : Operand) (fs : Frames) :
    Except Blame Frames := do
  let x ← evaluate fs a
  let y ← evaluate fs b
  let z ← computed fs (op.apply x y)
  assigned fs v z

def unaryEffect (op : Operation.Unary) (v : Variable) (a : Operand) (fs : Frames) :
    Except Blame Frames := do
  let x ← evaluate fs a
  let z ← computed fs (op.apply x)
  assigned fs v z

def jumpDecision (equal : Bool) (a b : Operand) (fs : Frames) : Except Blame Bool := do
  let x ← evaluate fs a
  let y ← evaluate fs b
  (computed fs (Operation.equals x y)).map fun result => decide (result = equal)

/-! Single computations. -/

def outcome {α : Type} (x : Except Fault α × State) : Except Blame (α × State) :=
  match x with
  | (.ok a, t) => .ok (a, t)
  | (.error fault, t) => .error (fault.category, t.frames)

theorem outcome_bind {α β : Type} (x : Exec α) (g : α → Exec β) (s : State) :
    outcome ((x >>= g) s) = outcome (x s) >>= fun r => outcome (g r.1 r.2) := by
  change outcome (Exec.bind x g s) = _
  unfold Exec.bind
  split
  · rename_i a t hx
    rw [hx]
    rfl
  · rename_i fault t hx
    rw [hx]
    rfl

theorem outcome_ask {α : Type} (f : State → Except Fault α) (s : State) :
    outcome (ask f s) = (blamed s.frames Fault.category (f s)).map fun a => (a, s) := by
  unfold ask
  cases f s <;> rfl

theorem outcome_ask_bind {α β : Type} (f : State → Except Fault α) (g : α → Exec β) (s : State) :
    outcome ((ask f >>= g) s) =
      blamed s.frames Fault.category (f s) >>= fun a => outcome (g a s) := by
  rw [outcome_bind, outcome_ask]
  cases f s <;> rfl

theorem outcome_ask_ok {α β : Type} {f : State → Except Fault α} {g : α → Exec β} {s : State}
    {a : α} (h : f s = .ok a) : outcome ((ask f >>= g) s) = outcome (g a s) := by
  rw [outcome_ask_bind, h]
  rfl

theorem map_bind {α β γ : Type} (x : Except Blame α) (f : α → Except Blame β) (g : β → γ) :
    (x >>= f).map g = x >>= fun a => (f a).map g := by
  cases x <;> rfl

theorem blamed_symbol {s : State} {i : Instruction} {position : Nat} {a : Operand}
    (h : i.get? position = some a) :
    blamed s.frames Fault.category (s.symbol i position) = evaluate s.frames a := by
  rw [State.symbol, Instruction.symbolBy, Instruction.operand, h]
  cases a with
  | const value | label name | type tag => rfl
  | var v =>
    change blamed s.frames Fault.category ((s.frames.read v).mapError Fault.frames) = _
    rw [evaluate]
    cases s.frames.read v <;> rfl

theorem blamed_compute {α : Type} (fs : Frames) (i : Instruction)
    (result : Except Operation.Fault α) :
    blamed fs Fault.category (compute i result) = computed fs result := by
  cases result with
  | ok a => rfl
  | error fault => cases fault <;> rfl

theorem outcome_store (v : Variable) (value : Value) (s : State) :
    outcome (store v value s) =
      (assigned s.frames v value).map fun fs => ((), { s with frames := fs }) := by
  rw [assigned, store, changeFrames]
  generalize s.frames.assign v value = x
  cases x <;> rfl

/-- A variable that cannot be looked up cannot be assigned either, for the same reason. -/
theorem ensureDeclared_bind (s : State) (v : Variable) (value : Value) :
    (blamed s.frames Fault.category (s.ensureDeclared v) >>= fun _ => assigned s.frames v value) =
      assigned s.frames v value := by
  rw [State.ensureDeclared]
  cases hl : s.frames.lookup v with
  | ok slot => rfl
  | error fault => rw [assigned, Frames.assign_of_lookup_error value hl]; rfl

/-! The instructions of the two forms. -/

section Instructions

variable {p : Program} {i : Instruction} {s : State} {a b : Operand} {d : Variable}

theorem target_eq_ok {position : Nat} {name : String} {order : Order}
    (h : i.get? position = some (.label name)) (hr : p.resolve name = .ok order) :
    target p i position = .ok order := by
  have hname : i.labelAt position = .ok name := Instruction.operandOf_eq_ok.mpr h
  rw [target, hname]
  change (p.resolve name).mapError _ = _
  rw [hr]
  rfl

theorem outcome_goToIf (c : Prop) [Decidable c] (order : Order) (s : State) :
    outcome ((if c then goTo order else pure () : Exec Unit) s) =
      .ok ((), { s with pc := if c then order else s.pc }) := by
  by_cases h : c <;> simp only [h, if_true, if_false] <;> rfl

theorem outcome_push (h : i.get? 1 = some a) :
    outcome (perform p i .push s) =
      (evaluate s.frames a).map fun x => ((), { s with data := x :: s.data }) := by
  change outcome ((ask (fun s => s.symbol i 1) >>= pushData) s) = _
  rw [outcome_ask_bind, blamed_symbol h]
  rfl

theorem outcome_pop {value : Value} {rest : List Value} (h : i.get? 1 = some (.var d))
    (hs : s.data = value :: rest) :
    outcome (perform p i .pop s) =
      (assigned s.frames d value).map fun fs => ((), { s with frames := fs, data := rest }) := by
  change outcome ((ask (fun _ => i.variableAt 1) >>= fun v =>
    ask (fun s => s.ensureDeclared v) >>= fun _ => popData >>= store v) s) = _
  rw [outcome_ask_ok (Instruction.operandOf_eq_ok.mpr h), outcome_ask_bind]
  have hpop : popData s = (.ok value, { s with data := rest }) := by rw [popData, hs]
  have hstore : outcome ((popData >>= store d) s) =
      (assigned s.frames d value).map fun fs => ((), { s with frames := fs, data := rest }) := by
    rw [outcome_bind, hpop]
    exact outcome_store d value { s with data := rest }
  rw [hstore]
  refine (map_bind _ (fun _ => assigned s.frames d value) _).symm.trans ?_
  rw [ensureDeclared_bind]

theorem outcome_binary {op : Operation.Binary} (h₁ : i.get? 1 = some (.var d))
    (h₂ : i.get? 2 = some a) (h₃ : i.get? 3 = some b) :
    outcome (perform p i (.binary op) s) =
      (binaryEffect op d a b s.frames).map fun fs => ((), { s with frames := fs }) := by
  change outcome ((ask (fun _ => i.variableAt 1) >>= fun v =>
    ask (fun s => s.symbol i 2) >>= fun x => ask (fun s => s.symbol i 3) >>= fun y =>
      ask (fun _ => compute i (op.apply x y)) >>= store v) s) = _
  rw [outcome_ask_ok (Instruction.operandOf_eq_ok.mpr h₁)]
  simp only [outcome_ask_bind, blamed_symbol h₂, blamed_symbol h₃, blamed_compute, outcome_store,
    binaryEffect, map_bind]

theorem outcome_unary {op : Operation.Unary} (h₁ : i.get? 1 = some (.var d))
    (h₂ : i.get? 2 = some a) :
    outcome (perform p i (.unary op) s) =
      (unaryEffect op d a s.frames).map fun fs => ((), { s with frames := fs }) := by
  change outcome ((ask (fun _ => i.variableAt 1) >>= fun v =>
    ask (fun s => s.symbol i 2) >>= fun x =>
      ask (fun _ => compute i (op.apply x)) >>= store v) s) = _
  rw [outcome_ask_ok (Instruction.operandOf_eq_ok.mpr h₁)]
  simp only [outcome_ask_bind, blamed_symbol h₂, blamed_compute, outcome_store, unaryEffect,
    map_bind]

theorem outcome_stackBinary {op : Operation.Binary} {x y : Value} {rest : List Value}
    (hs : s.data = y :: x :: rest) :
    outcome (perform p i (.stackBinary op) s) =
      (computed s.frames (op.apply x y)).map fun z => ((), { s with data := z :: rest }) := by
  change outcome ((ask State.topTwo >>= fun xy => ask (fun _ => compute i (op.apply xy.1 xy.2)) >>=
    fun z => dropData 2 >>= fun _ => pushData z) s) = _
  have htop : s.topTwo = .ok (x, y) := by rw [State.topTwo, hs]
  rw [outcome_ask_ok htop, outcome_ask_bind, blamed_compute]
  change (computed s.frames (op.apply x y) >>= fun z =>
    .ok ((), { s with data := z :: s.data.drop 2 })) = _
  rw [hs]
  rfl

theorem outcome_stackUnary {op : Operation.Unary} {x : Value} {rest : List Value}
    (hs : s.data = x :: rest) :
    outcome (perform p i (.stackUnary op) s) =
      (computed s.frames (op.apply x)).map fun z => ((), { s with data := z :: rest }) := by
  change outcome ((ask State.top >>= fun x => ask (fun _ => compute i (op.apply x)) >>=
    fun z => dropData 1 >>= fun _ => pushData z) s) = _
  have htop : s.top = .ok x := by rw [State.top, hs]
  rw [outcome_ask_ok htop, outcome_ask_bind, blamed_compute]
  change (computed s.frames (op.apply x) >>= fun z =>
    .ok ((), { s with data := z :: s.data.drop 1 })) = _
  rw [hs]
  rfl

theorem outcome_jumpIf {equal : Bool} {name : String} {order : Order}
    (h₁ : i.get? 1 = some (.label name)) (h₂ : i.get? 2 = some a) (h₃ : i.get? 3 = some b)
    (hr : p.resolve name = .ok order) :
    outcome (perform p i (.jumpIf equal) s) =
      (jumpDecision equal a b s.frames).map fun taken =>
        ((), { s with pc := if taken then order else s.pc }) := by
  change outcome ((ask (fun _ => target p i 1) >>= fun order =>
    ask (fun s => s.symbol i 2) >>= fun x => ask (fun s => s.symbol i 3) >>= fun y =>
      ask (fun _ => compute i (Operation.equals x y)) >>= fun result =>
        if result = equal then goTo order else pure ()) s) = _
  rw [outcome_ask_ok (target_eq_ok h₁ hr)]
  simp only [outcome_ask_bind, blamed_symbol h₂, blamed_symbol h₃, blamed_compute, jumpDecision,
    map_bind, outcome_goToIf]
  congr 1
  funext x
  congr 1
  funext y
  cases computed s.frames (Operation.equals x y) <;> simp [Except.map, bind, Except.bind]

theorem outcome_stackJumpIf {equal : Bool} {name : String} {order : Order} {x y : Value}
    {rest : List Value} (h₁ : i.get? 1 = some (.label name)) (hr : p.resolve name = .ok order)
    (hs : s.data = y :: x :: rest) :
    outcome (perform p i (.stackJumpIf equal) s) =
      (computed s.frames (Operation.equals x y)).map fun result =>
        ((), { s with data := rest, pc := if result = equal then order else s.pc }) := by
  change outcome ((ask (fun _ => target p i 1) >>= fun order => ask State.topTwo >>= fun xy =>
      ask (fun _ => compute i (Operation.equals xy.1 xy.2)) >>= fun result =>
        dropData 2 >>= fun _ => if result = equal then goTo order else pure ()) s) = _
  have htop : s.topTwo = .ok (x, y) := by rw [State.topTwo, hs]
  rw [outcome_ask_ok (target_eq_ok h₁ hr), outcome_ask_ok htop, outcome_ask_bind, blamed_compute]
  have hjump (result : Bool) :
      outcome ((dropData 2 >>= fun _ => if result = equal then goTo order else pure ()) s) =
        .ok ((), { s with data := rest, pc := if result = equal then order else s.pc }) := by
    have hdrop : dropData 2 s = (.ok (), { s with data := rest }) := by
      change (Except.ok (), { s with data := s.data.drop 2 }) = _
      rw [hs]
      rfl
    rw [outcome_bind, hdrop]
    exact outcome_goToIf _ order { s with data := rest }
  simp only [hjump]
  rfl

end Instructions

/-! Runs of a few instructions. -/

/-- The instructions stand one after the other from the given place on. -/
def Follows (p : Program) : Order → List Instruction → Prop
  | _, [] => True
  | place, i :: rest => p.after? place = some i ∧ Follows p i.order rest

def summary (x : Except Failure Status × State) : Option (Except Blame State) :=
  match x with
  | (.ok .running, t) => some (.ok t)
  | (.ok (.halted _), _) => none
  | (.error e, t) => some (.error (e.category, t.frames))

theorem summary_eq_ok {x : Except Failure Status × State} {t : State}
    (h : summary x = some (.ok t)) : x = (.ok .running, t) := by
  obtain ⟨_ | _ | _, u⟩ := x <;> simp_all [summary]

theorem summary_eq_error {x : Except Failure Status × State} {blame : Blame}
    (h : summary x = some (.error blame)) :
    ∃ e t, x = (.error e, t) ∧ e.category = blame.1 ∧ t.frames = blame.2 := by
  obtain ⟨e | _ | _, u⟩ := x <;> simp only [summary, Option.some.injEq, Except.error.injEq,
    reduceCtorEq] at h
  subst h
  exact ⟨e, u, rfl, rfl, rfl⟩

def fetched (s : State) (order : Order) : State :=
  { s with pc := order, executed := s.executed + 1 }

section Runs

variable {p : Program} {s : State} {i : Instruction} {action : Action}

theorem dispatch_of_ne_exit (ha : Action.ofOpcode i.opcode = action) (hne : action ≠ .exit) :
    dispatch p i = Exec.bind (perform p i action) fun _ => Exec.pure .running := by
  rw [dispatch, ha]
  cases action <;> first | rfl | exact absurd rfl hne

theorem step_eq_perform (hnext : p.after? s.pc = some i) (hfits : i.arityFault? = none)
    (ha : Action.ofOpcode i.opcode = action) (hne : action ≠ .exit) :
    s.step p =
      match perform p i action (fetched s i.order) with
      | (.ok (), t) => (.ok .running, t)
      | (.error fault, t) => (.error ⟨i.order, fault⟩, t) := by
  rw [State.step, hnext]
  simp only [hfits, dispatch_of_ne_exit ha hne, Exec.bind, fetched]
  rcases perform p i action _ with ⟨_ | _, t⟩ <;> rfl

def andThen {γ : Type} (x : Except Blame γ) (k : γ → Option (Except Blame State)) :
    Option (Except Blame State) :=
  match x with
  | .ok c => k c
  | .error blame => some (.error blame)

theorem andThen_bind {γ δ : Type} (x : Except Blame γ) (f : γ → Except Blame δ)
    (k : δ → Option (Except Blame State)) :
    andThen (x >>= f) k = andThen x fun c => andThen (f c) k := by
  cases x <;> rfl

theorem andThen_map {γ δ : Type} (x : Except Blame γ) (f : γ → δ)
    (k : δ → Option (Except Blame State)) :
    andThen (x.map f) k = andThen x fun c => k (f c) := by
  cases x <;> rfl

theorem andThen_ok {γ : Type} (x : Except Blame γ) (g : γ → State) :
    (andThen x fun c => some (.ok (g c))) = some (x.map g) := by
  cases x <;> rfl

theorem summary_advance_succ {γ : Type} {x : Except Blame γ} {g : γ → State} (n : Nat)
    (hnext : p.after? s.pc = some i) (hfits : i.arityFault? = none)
    (ha : Action.ofOpcode i.opcode = action) (hne : action ≠ .exit)
    (h : outcome (perform p i action (fetched s i.order)) = x.map fun c => ((), g c)) :
    summary (s.advance p (n + 1)) = andThen x fun c => summary ((g c).advance p n) := by
  rw [State.advance, step_eq_perform hnext hfits ha hne]
  revert h
  rcases perform p i action (fetched s i.order) with ⟨_ | _, t⟩ <;> cases x <;>
    intro h <;> cases h <;> rfl

theorem advance_one (p : Program) (s : State) : s.advance p 1 = s.step p := by
  rw [State.advance]
  rcases s.step p with ⟨_ | _ | _, t⟩ <;> rfl

theorem arityFault?_eq_none (ha : Action.ofOpcode i.opcode = action) (hgap : i.gap? = none)
    (h : action.operands = i.leading) : i.arityFault? = none := by
  rw [← ha, operands_ofOpcode] at h
  obtain ⟨order, opcode, _ | a, _ | b, _ | c⟩ := i <;>
    simp_all [Instruction.arityFault?, Instruction.get?, Instruction.leading, Instruction.args,
      Instruction.gap?]

theorem summary_pushes {a b : Operand} {o₁ o₂ : Order} {rest : List Instruction} (n : Nat)
    (h : Follows p s.pc (⟨o₁, .pushS, some a, none, none⟩ :: ⟨o₂, .pushS, some b, none, none⟩ ::
      rest)) :
    summary (s.advance p (n + 2)) = andThen (evaluate s.frames a) fun x =>
      andThen (evaluate s.frames b) fun y =>
        summary (State.advance p n
          { s with data := y :: x :: s.data, pc := o₂, executed := s.executed + 2 }) := by
  obtain ⟨h₁, h₂, -⟩ := h
  rw [summary_advance_succ (n + 1) h₁ rfl rfl nofun (outcome_push rfl)]
  congr 1
  funext x
  exact summary_advance_succ n h₂ rfl rfl nofun (outcome_push rfl)

theorem summary_binaryS {op : Operation.Binary} {opS : Opcode} {d : Variable} {a b : Operand}
    {o₁ o₂ o₃ o₄ : Order} (ha : Action.ofOpcode opS = .stackBinary op)
    (h : Follows p s.pc [⟨o₁, .pushS, some a, none, none⟩, ⟨o₂, .pushS, some b, none, none⟩,
      ⟨o₃, opS, none, none, none⟩, ⟨o₄, .popS, some (.var d), none, none⟩]) :
    summary (s.advance p 4) = some ((binaryEffect op d a b s.frames).map fun fs =>
      { s with frames := fs, pc := o₄, executed := s.executed + 4 }) := by
  have hpushes := summary_pushes 2 h
  obtain ⟨-, -, h₃, h₄, -⟩ := h
  rw [hpushes, binaryEffect, ← andThen_ok]
  simp only [andThen_bind]
  congr 1
  funext x
  congr 1
  funext y
  refine (summary_advance_succ (s := { s with
      data := y :: x :: s.data, pc := o₂, executed := s.executed + 2 })
    1 h₃ (arityFault?_eq_none ha rfl rfl) ha (by nofun) (outcome_stackBinary rfl)).trans ?_
  congr 1
  funext z
  exact summary_advance_succ 0 h₄ rfl rfl nofun (outcome_pop rfl rfl)

theorem summary_binary {op : Operation.Binary} {opcode : Opcode} {d : Variable} {a b : Operand}
    {o : Order} (ha : Action.ofOpcode opcode = .binary op)
    (h : p.after? s.pc = some ⟨o, opcode, some (.var d), some a, some b⟩) :
    summary (s.step p) = some ((binaryEffect op d a b s.frames).map fun fs =>
      { s with frames := fs, pc := o, executed := s.executed + 1 }) := by
  rw [← advance_one, ← andThen_ok]
  exact summary_advance_succ 0 h (arityFault?_eq_none ha rfl rfl) ha (by nofun)
    (outcome_binary rfl rfl rfl)

theorem summary_unaryS {op : Operation.Unary} {opS : Opcode} {d : Variable} {a : Operand}
    {o₁ o₂ o₃ : Order} (ha : Action.ofOpcode opS = .stackUnary op)
    (h : Follows p s.pc [⟨o₁, .pushS, some a, none, none⟩, ⟨o₂, opS, none, none, none⟩,
      ⟨o₃, .popS, some (.var d), none, none⟩]) :
    summary (s.advance p 3) = some ((unaryEffect op d a s.frames).map fun fs =>
      { s with frames := fs, pc := o₃, executed := s.executed + 3 }) := by
  obtain ⟨h₁, h₂, h₃, -⟩ := h
  rw [summary_advance_succ 2 h₁ rfl rfl nofun (outcome_push rfl), unaryEffect, ← andThen_ok]
  simp only [andThen_bind]
  congr 1
  funext x
  refine (summary_advance_succ (s := { s with
      data := x :: s.data, pc := o₁, executed := s.executed + 1 })
    1 h₂ (arityFault?_eq_none ha rfl rfl) ha (by nofun) (outcome_stackUnary rfl)).trans ?_
  congr 1
  funext z
  exact summary_advance_succ 0 h₃ rfl rfl nofun (outcome_pop rfl rfl)

theorem summary_unary {op : Operation.Unary} {opcode : Opcode} {d : Variable} {a : Operand}
    {o : Order} (ha : Action.ofOpcode opcode = .unary op)
    (h : p.after? s.pc = some ⟨o, opcode, some (.var d), some a, none⟩) :
    summary (s.step p) = some ((unaryEffect op d a s.frames).map fun fs =>
      { s with frames := fs, pc := o, executed := s.executed + 1 }) := by
  rw [← advance_one, ← andThen_ok]
  exact summary_advance_succ 0 h (arityFault?_eq_none ha rfl rfl) ha (by nofun)
    (outcome_unary rfl rfl)

theorem summary_jumpIfS {equal : Bool} {opS : Opcode} {name : String} {a b : Operand}
    {o₁ o₂ o₃ order : Order} (ha : Action.ofOpcode opS = .stackJumpIf equal)
    (hr : p.resolve name = .ok order)
    (h : Follows p s.pc [⟨o₁, .pushS, some a, none, none⟩, ⟨o₂, .pushS, some b, none, none⟩,
      ⟨o₃, opS, some (.label name), none, none⟩]) :
    summary (s.advance p 3) = some ((jumpDecision equal a b s.frames).map fun taken =>
      { s with pc := if taken then order else o₃, executed := s.executed + 3 }) := by
  have hpushes := summary_pushes 1 h
  obtain ⟨-, -, h₃, -⟩ := h
  rw [hpushes, jumpDecision, ← andThen_ok]
  simp only [andThen_bind, andThen_map, decide_eq_true_eq]
  congr 1
  funext x
  congr 1
  funext y
  exact summary_advance_succ 0 h₃ (arityFault?_eq_none ha rfl rfl) ha (by nofun)
    (outcome_stackJumpIf rfl hr rfl)

theorem summary_jumpIf {equal : Bool} {opcode : Opcode} {name : String} {a b : Operand}
    {o order : Order} (ha : Action.ofOpcode opcode = .jumpIf equal)
    (hr : p.resolve name = .ok order)
    (h : p.after? s.pc = some ⟨o, opcode, some (.label name), some a, some b⟩) :
    summary (s.step p) = some ((jumpDecision equal a b s.frames).map fun taken =>
      { s with pc := if taken then order else o, executed := s.executed + 1 }) := by
  rw [← advance_one, ← andThen_ok]
  exact summary_advance_succ 0 h (arityFault?_eq_none ha rfl rfl) ha (by nofun)
    (outcome_jumpIf rfl rfl rfl hr)

end Runs

def stackForm? : Opcode → Option Opcode
  | .add => some .addS
  | .sub => some .subS
  | .mul => some .mulS
  | .div => some .divS
  | .idiv => some .idivS
  | .lt => some .ltS
  | .gt => some .gtS
  | .eq => some .eqS
  | .and => some .andS
  | .or => some .orS
  | .not => some .notS
  | .int2Char => some .int2CharS
  | .stri2Int => some .stri2IntS
  | .int2Float => some .int2FloatS
  | .float2Int => some .float2IntS
  | _ => none

def stackJump? : Opcode → Option Opcode
  | .jumpIfEq => some .jumpIfEqS
  | .jumpIfNeq => some .jumpIfNeqS
  | _ => none

theorem action_of_stackForm? {op opS : Opcode} (h : stackForm? op = some opS) :
    (∃ f, op.arity = 3 ∧ Action.ofOpcode op = .binary f ∧ Action.ofOpcode opS = .stackBinary f) ∨
      ∃ f, op.arity = 2 ∧ Action.ofOpcode op = .unary f ∧ Action.ofOpcode opS = .stackUnary f := by
  cases op <;> simp only [stackForm?, Option.some.injEq, reduceCtorEq] at h <;> subst h <;>
    simp [Action.ofOpcode, Opcode.arity]

theorem action_of_stackJump? {op opS : Opcode} (h : stackJump? op = some opS) :
    ∃ equal, Action.ofOpcode op = .jumpIf equal ∧ Action.ofOpcode opS = .stackJumpIf equal := by
  cases op <;> simp only [stackJump?, Option.some.injEq, reduceCtorEq] at h <;> subst h <;>
    simp [Action.ofOpcode]

/-- States that differ in their place and their count at most. -/
structure Alike (t u : State) : Prop where
  frames : t.frames = u.frames
  data : t.data = u.data
  calls : t.calls = u.calls
  input : t.input = u.input
  output : t.output = u.output
  diagnostics : t.diagnostics = u.diagnostics

/-- Either both go on, in states that are related, or both fail, with one category and the same
frames. -/
def Agree (related : State → State → Prop) :
    Except Failure Status × State → Except Failure Status × State → Prop
  | (.ok .running, t), (.ok .running, u) => related t u
  | (.error d, t), (.error e, u) => d.category = e.category ∧ t.frames = u.frames
  | _, _ => False

theorem agree_of_summary {γ : Type} {z : Except Blame γ} {f g : γ → State}
    {related : State → State → Prop} {x y : Except Failure Status × State}
    (hx : summary x = some (z.map f)) (hy : summary y = some (z.map g))
    (hfg : ∀ c, related (f c) (g c)) : Agree related x y := by
  cases z with
  | ok c =>
    obtain rfl := summary_eq_ok hx
    obtain rfl := summary_eq_ok hy
    exact hfg c
  | error blame =>
    obtain ⟨d, t, rfl, hd, ht⟩ := summary_eq_error hx
    obtain ⟨e, u, rfl, he, hu⟩ := summary_eq_error hy
    exact ⟨hd.trans he.symm, ht.trans hu.symm⟩

/-- The stack forms agree with the forms that name their operands. The two blocks may stand in
different programs and at different places. -/
theorem stack_forms_agree (p q : Program) (s : State) (place : Order) (count : Nat) :
    (∀ op opS d a b o o₁ o₂ o₃ o₄, stackForm? op = some opS → op.arity = 3 →
      Follows p s.pc [⟨o₁, .pushS, some a, none, none⟩, ⟨o₂, .pushS, some b, none, none⟩,
        ⟨o₃, opS, none, none, none⟩, ⟨o₄, .popS, some (.var d), none, none⟩] →
      Follows q place [⟨o, op, some (.var d), some a, some b⟩] →
      Agree Alike (s.advance p 4) (State.step q { s with pc := place, executed := count })) ∧
    (∀ op opS d a o o₁ o₂ o₃, stackForm? op = some opS → op.arity = 2 →
      Follows p s.pc [⟨o₁, .pushS, some a, none, none⟩, ⟨o₂, opS, none, none, none⟩,
        ⟨o₃, .popS, some (.var d), none, none⟩] →
      Follows q place [⟨o, op, some (.var d), some a, none⟩] →
      Agree Alike (s.advance p 3) (State.step q { s with pc := place, executed := count })) ∧
    (∀ op opS name a b o o₁ o₂ o₃ here there, stackJump? op = some opS →
      p.resolve name = .ok here → q.resolve name = .ok there →
      Follows p s.pc [⟨o₁, .pushS, some a, none, none⟩, ⟨o₂, .pushS, some b, none, none⟩,
        ⟨o₃, opS, some (.label name), none, none⟩] →
      Follows q place [⟨o, op, some (.label name), some a, some b⟩] →
      Agree (fun t u => Alike t u ∧ t.data = s.data ∧
          (t.pc = here ∧ u.pc = there ∨ t.pc = o₃ ∧ u.pc = o))
        (s.advance p 3) (State.step q { s with pc := place, executed := count })) := by
  refine ⟨?binary, ?unary, ?jump⟩
  case binary =>
    intro op opS d a b o o₁ o₂ o₃ o₄ hform harity hp hq
    rcases action_of_stackForm? hform with ⟨f, -, hop, hopS⟩ | ⟨f, harity', -⟩
    · exact agree_of_summary (summary_binaryS hopS hp) (summary_binary hop hq.1)
        fun fs => ⟨rfl, rfl, rfl, rfl, rfl, rfl⟩
    · omega
  case unary =>
    intro op opS d a o o₁ o₂ o₃ hform harity hp hq
    rcases action_of_stackForm? hform with ⟨f, harity', -⟩ | ⟨f, -, hop, hopS⟩
    · omega
    · exact agree_of_summary (summary_unaryS hopS hp) (summary_unary hop hq.1)
        fun fs => ⟨rfl, rfl, rfl, rfl, rfl, rfl⟩
  case jump =>
    intro op opS name a b o o₁ o₂ o₃ here there hform hhere hthere hp hq
    obtain ⟨equal, hop, hopS⟩ := action_of_stackJump? hform
    refine agree_of_summary (summary_jumpIfS hopS hhere hp) (summary_jumpIf hop hthere hq.1) ?_
    intro taken
    refine ⟨⟨rfl, rfl, rfl, rfl, rfl, rfl⟩, rfl, ?_⟩
    cases taken
    · exact .inr ⟨rfl, rfl⟩
    · exact .inl ⟨rfl, rfl⟩

/-- Seven divided by zero, which fails, a conversion and a jump, in both forms. -/
theorem division_conversion_jump_agree :
    let x : Variable := ⟨.global, "x"⟩
    let a : Operand := .const (.int 7)
    let b : Operand := .const (.int 0)
    let p : Program := ⟨⟨[
      (1, ⟨1, .pushS, some a, none, none⟩), (2, ⟨2, .pushS, some b, none, none⟩),
      (3, ⟨3, .idivS, none, none, none⟩), (4, ⟨4, .popS, some (.var x), none, none⟩),
      (5, ⟨5, .pushS, some a, none, none⟩), (6, ⟨6, .int2FloatS, none, none, none⟩),
      (7, ⟨7, .popS, some (.var x), none, none⟩),
      (8, ⟨8, .pushS, some a, none, none⟩), (9, ⟨9, .pushS, some b, none, none⟩),
      (10, ⟨10, .jumpIfNeqS, some (.label "end"), none, none⟩),
      (20, ⟨20, .label, some (.label "end"), none, none⟩)]⟩, ⟨[("end", 20)]⟩, 20⟩
    let q : Program := ⟨⟨[
      (1, ⟨1, .idiv, some (.var x), some a, some b⟩),
      (2, ⟨2, .int2Float, some (.var x), some a, none⟩),
      (3, ⟨3, .jumpIfNeq, some (.label "end"), some a, some b⟩),
      (4, ⟨4, .label, some (.label "end"), none, none⟩)]⟩, ⟨[("end", 4)]⟩, 4⟩
    let s (place : Order) : State :=
      { frames := { global := ⟨[("x", none)]⟩ }, data := [.nil], pc := place }
    Agree Alike ((s 0).advance p 4) ((s 0).step q) ∧
      Agree Alike ((s 4).advance p 3) ((s 1).step q) ∧
      Agree (fun t u => Alike t u ∧ t.data = [.nil] ∧
          (t.pc = 20 ∧ u.pc = 4 ∨ t.pc = 10 ∧ u.pc = 3))
        ((s 7).advance p 3) ((s 2).step q) := by
  intro x a b p q s
  refine ⟨?binary, ?unary, ?jump⟩
  case binary =>
    exact (stack_forms_agree p q (s 0) 0 0).1 .idiv .idivS x a b 1 1 2 3 4 rfl rfl
      ⟨rfl, rfl, rfl, rfl, trivial⟩ ⟨rfl, trivial⟩
  case unary =>
    exact (stack_forms_agree p q (s 4) 1 0).2.1 .int2Float .int2FloatS x a 2 5 6 7 rfl rfl
      ⟨rfl, rfl, rfl, trivial⟩ ⟨rfl, trivial⟩
  case jump =>
    exact (stack_forms_agree p q (s 7) 2 0).2.2 .jumpIfNeq .jumpIfNeqS "end" a b 3 8 9 10 20 4 rfl
      rfl rfl ⟨rfl, rfl, rfl, trivial⟩ ⟨rfl, trivial⟩

end ThreeAddress.Machine
