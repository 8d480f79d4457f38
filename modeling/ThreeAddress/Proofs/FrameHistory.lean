import ThreeAddress.Proofs.FrameEffects

/-! Which frames there are. The temporary frame and the number of local frames are determined by the
instructions that have moved frames so far, and a frame is reported missing only if by this account
it is not there. -/

namespace ThreeAddress

namespace Frames

variable {fs : Frames} {kind : FrameKind} {v : Variable}

theorem length_locals_put (g : Frame) : (fs.put kind g).locals.length = fs.locals.length := by
  cases kind with
  | global | temporary => rfl
  | «local» => cases hl : fs.locals <;> simp [put, hl]

theorem isSome_temporary_put (g : Frame) :
    (fs.put kind g).temporary.isSome = fs.temporary.isSome := by
  cases kind with
  | global | «local» => rfl
  | temporary => simp [put]

theorem resolve_bind_missing {α : Type} {k : FrameKind} {g : Frame → Except Fault α}
    (h : (fs.resolve k >>= g) = .error (.missing kind)) (hg : ∀ f, g f ≠ .error (.missing kind)) :
    fs.frameAt? kind.site = none := by
  rcases bind_eq_error.mp h with h | ⟨f, -, h⟩
  · obtain ⟨hkind, hnone⟩ := resolve_eq_error.mp h
    rwa [Fault.missing.inj hkind]
  · exact absurd h (hg f)

theorem lookup_missing (h : fs.lookup v = .error (.missing kind)) :
    fs.frameAt? kind.site = none := by
  refine resolve_bind_missing h fun f hf => ?_
  split at hf <;> cases hf

theorem read_missing (h : fs.read v = .error (.missing kind)) : fs.frameAt? kind.site = none := by
  rcases bind_eq_error.mp h with h | ⟨slot, -, h⟩
  · exact lookup_missing h
  · split at h <;> cases h

theorem declare_missing (h : fs.declare v = .error (.missing kind)) :
    fs.frameAt? kind.site = none := by
  refine resolve_bind_missing h fun f hf => ?_
  split at hf <;> cases hf

theorem assign_missing {value : Value} (h : fs.assign v value = .error (.missing kind)) :
    fs.frameAt? kind.site = none := by
  refine resolve_bind_missing h fun f hf => ?_
  split at hf <;> cases hf

theorem push_missing (h : fs.push = .error (.missing kind)) : fs.frameAt? kind.site = none := by
  unfold push at h
  split at h
  · cases h
  · rename_i hnone
    cases h
    exact hnone

theorem pop_missing (h : fs.pop = .error (.missing kind)) : fs.frameAt? kind.site = none := by
  unfold pop at h
  split at h
  · cases h
  · rename_i hnone
    cases h
    simp [FrameKind.site, frameAt?, hnone]

end Frames

namespace Machine

/-! The account of the frames. -/

def State.frameMove? (p : Program) (s : State) : Option Opcode :=
  ((s.completed? p).map Instruction.opcode).filter fun opcode => opcode ∈ Opcode.framing

/-- The instructions among the first `n` steps that succeeded and moved frames. -/
def State.frameHistory (p : Program) (n : Nat) (s : State) : List Opcode :=
  (s.visited p n).filterMap (State.frameMove? p)

/-- By the history there is a temporary frame: the last move was one that leaves it behind. -/
def LeavesTemporary (h : List Opcode) : Prop :=
  h.getLast? = some .createFrame ∨ h.getLast? = some .popFrame

instance (h : List Opcode) : Decidable (LeavesTemporary h) :=
  inferInstanceAs (Decidable (_ ∨ _))

def heightAfter (h : List Opcode) : Int := h.count .pushFrame - h.count .popFrame

/-- The frames are those that the history tells of. -/
structure Accounts (h : List Opcode) (fs : Frames) : Prop where
  temporary : fs.temporary.isSome ↔ LeavesTemporary h
  locals : fs.locals.length = heightAfter h

theorem Accounts.unmoved {h : List Opcode} {fs gs : Frames} (ha : Accounts h fs)
    (htemporary : gs.temporary.isSome = fs.temporary.isSome)
    (hlocals : gs.locals.length = fs.locals.length) : Accounts h gs := by
  constructor
  · rw [htemporary]
    exact ha.temporary
  · rw [hlocals]
    exact ha.locals

theorem Accounts.temporary_eq_none {h : List Opcode} {fs : Frames} (ha : Accounts h fs) :
    fs.temporary = none ↔ ¬ LeavesTemporary h := by
  rw [← ha.temporary, Option.not_isSome_iff_eq_none]

theorem Accounts.locals_eq_nil {h : List Opcode} {fs : Frames} (ha : Accounts h fs) :
    fs.locals = [] ↔ heightAfter h = 0 := by
  rw [← ha.locals, ← List.length_eq_zero_iff]
  omega

section History

variable {p : Program} {i : Instruction} {s : State}

theorem frameMove?_eq_some (hc : s.completed? p = some i) (h : i.opcode ∈ Opcode.framing) :
    s.frameMove? p = some i.opcode := by
  simp [State.frameMove?, hc, h]

theorem frameMove?_eq_none (hc : s.completed? p = some i) (h : i.opcode ∉ Opcode.framing) :
    s.frameMove? p = none := by
  simp [State.frameMove?, hc, h]

theorem step_accounts {h : List Opcode} (ha : Accounts h s.frames) :
    Accounts (h ++ (s.frameMove? p).toList) (s.step p).2.frames := by
  have hlocals : (s.frames.locals.length : Int) = h.count .pushFrame - h.count .popFrame :=
    ha.locals
  rcases step_frames_cases p s with ⟨hc, hsame⟩ | ⟨i, hc, heffect⟩
  · rw [hsame, show s.frameMove? p = none by simp [State.frameMove?, hc]]
    simpa using ha
  cases heffect with
  | keeps hframing _ _ hgs =>
    rw [hgs, frameMove?_eq_none hc hframing]
    simpa using ha
  | creates hop hgs =>
    rw [hgs, frameMove?_eq_some hc (by rw [hop]; decide), hop]
    constructor
    · simp [Frames.create, LeavesTemporary]
    · simpa [Frames.create, heightAfter] using hlocals
  | pushes f hop _ hgs =>
    rw [hgs, frameMove?_eq_some hc (by rw [hop]; decide), hop]
    constructor
    · simp [LeavesTemporary]
    · simp [heightAfter]
      omega
  | pops f rest hop hrest hgs =>
    rw [hgs, frameMove?_eq_some hc (by rw [hop]; decide), hop]
    rw [hrest, List.length_cons] at hlocals
    constructor
    · simp [LeavesTemporary]
    · simp [heightAfter]
      omega
  | declares v f hop _ _ _ hgs =>
    rw [hgs, frameMove?_eq_none hc (by rw [hop]; decide)]
    simpa using ha.unmoved (Frames.isSome_temporary_put _) (Frames.length_locals_put _)
  | stores v f value hop _ _ _ _ hgs =>
    have hframing : ∀ opcode ∈ Opcode.storing, opcode ∉ Opcode.framing := by decide
    rw [hgs, frameMove?_eq_none hc (hframing _ hop)]
    simpa using ha.unmoved (Frames.isSome_temporary_put _) (Frames.length_locals_put _)

theorem afterSteps_accounts (ha : Accounts [] s.frames) (n : Nat) :
    Accounts (s.frameHistory p n) (s.afterSteps p n).frames := by
  induction n with
  | zero => exact ha
  | succ n ih =>
    rw [afterSteps_succ, State.frameHistory, filterMap_visited_succ]
    exact step_accounts ih

end History

/-! Missing frames. -/

namespace Exec

variable {α β : Type}

/-- A frame that the computation finds missing is not there. -/
def Honest (x : Exec α) : Prop :=
  ∀ s t kind, x s = (.error (.frames (.missing kind)), t) → s.frames.frameAt? kind.site = none

theorem Honest.bind {x : Exec α} {g : α → Exec β} (hx : Honest x) (hkeeps : Keeps .frames x)
    (hg : ∀ a, Honest (g a)) : Honest (x >>= g) := by
  intro s t kind h
  rcases apply_bind_eq_error.mp h with h | ⟨a, u, hu, h⟩
  · exact hx s t kind h
  · have hsame : (x s).2.frames = s.frames := hkeeps s
    rw [hu] at hsame
    rw [← hsame]
    exact hg a u t kind h

theorem honest_ask {f : State → Except Fault α}
    (hf : ∀ s kind, f s = .error (.frames (.missing kind)) → s.frames.frameAt? kind.site = none) :
    Honest (ask f) := by
  intro s t kind h
  exact hf s kind (ask_eq_error.mp h).1

theorem honest_ask_bind {f : State → Except Fault α} {g : α → Exec β}
    (hf : ∀ s kind, f s = .error (.frames (.missing kind)) → s.frames.frameAt? kind.site = none)
    (hg : ∀ a, Honest (g a)) : Honest (ask f >>= g) := (honest_ask hf).bind (keeps_ask f) hg

theorem Total.honest {x : Exec α} (hx : Total x) : Honest x := by
  intro s t kind h
  obtain ⟨a, u, ha⟩ := hx s
  rw [h] at ha
  cases ha

theorem honest_changeFrames {f : Frames → Except Frames.Fault Frames}
    (hf : ∀ fs kind, f fs = .error (.missing kind) → fs.frameAt? kind.site = none) :
    Honest (changeFrames f) := by
  intro s t kind h
  unfold changeFrames at h
  split at h
  · cases h
  · rename_i fault hfault
    cases h
    exact hf s.frames kind hfault

theorem honest_store (v : Variable) (value : Value) : Honest (store v value) :=
  honest_changeFrames fun _ _ => Frames.assign_missing

theorem honest_popData : Honest popData := by
  intro s t kind h
  unfold popData at h
  split at h <;> cases h

theorem honest_popCall : Honest popCall := by
  intro s t kind h
  unfold popCall at h
  split at h <;> cases h

theorem honest_emit (text : String) : Honest (emit text) := by
  intro s t kind h
  unfold emit at h
  split at h <;> cases h

theorem honest_diagnose (text : String) : Honest (diagnose text) := by
  intro s t kind h
  rcases apply_bind_eq_error.mp h with h | ⟨_, u, -, h⟩
  · unfold writeDiagnostics at h
    split at h <;> cases h
  · obtain ⟨d, -, hd⟩ := mapError_eq_error.mp (ask_eq_error.mp h).1
    cases hd

end Exec

open Exec

section Missing

variable {p : Program} {i : Instruction} {s t : State} {position : Nat} {kind : FrameKind}

theorem operand_bind_frames {α : Type} {f : Operand → Except Fault α} {d : Frames.Fault}
    (h : (i.operand position >>= f) = .error (.frames d)) : ∃ a, f a = .error (.frames d) := by
  rcases bind_eq_error.mp h with h | ⟨a, -, h⟩
  · unfold Instruction.operand at h
    split at h <;> cases h
  · exact ⟨a, h⟩

theorem operandOf_ne_frames {α : Type} {kind : OperandKind α} {d : Frames.Fault} :
    i.operandOf position kind ≠ .error (.frames d) := by
  intro h
  obtain ⟨a, h⟩ := operand_bind_frames h
  split at h <;> cases h

theorem target_ne_frames {d : Frames.Fault} : target p i position ≠ .error (.frames d) := by
  intro h
  rcases bind_eq_error.mp h with h | ⟨name, -, h⟩
  · exact operandOf_ne_frames h
  · obtain ⟨_, -, hd⟩ := mapError_eq_error.mp h
    cases hd

theorem compute_ne_frames {α : Type} {result : Except Operation.Fault α} {d : Frames.Fault} :
    compute i result ≠ .error (.frames d) := by
  intro h
  obtain ⟨_, -, hd⟩ := mapError_eq_error.mp h
  cases hd

theorem symbolBy_missing {α : Type} {constant : Value → α}
    {find : Variable → Except Frames.Fault α}
    (hfind : ∀ v, find v = .error (.missing kind) → s.frames.frameAt? kind.site = none)
    (h : i.symbolBy position constant find = .error (.frames (.missing kind))) :
    s.frames.frameAt? kind.site = none := by
  obtain ⟨a, h⟩ := operand_bind_frames h
  cases a with
  | var v =>
    obtain ⟨d, hd, he⟩ := mapError_eq_error.mp h
    cases he
    exact hfind v hd
  | const value | label name | type tag => cases h

theorem ensureDeclared_missing {v : Variable}
    (h : s.ensureDeclared v = .error (.frames (.missing kind))) :
    s.frames.frameAt? kind.site = none := by
  obtain ⟨d, hd, he⟩ := mapError_eq_error.mp h
  cases he
  cases hl : s.frames.lookup v with
  | ok slot =>
    rw [hl] at hd
    cases hd
  | error fault =>
    rw [hl] at hd
    cases hd
    exact Frames.lookup_missing hl

theorem exitCode_missing (h : s.exitCode i = .error (.frames (.missing kind))) :
    s.frames.frameAt? kind.site = none := by
  rcases bind_eq_error.mp h with h | ⟨value, -, h⟩
  · exact symbolBy_missing (fun _ => Frames.read_missing) h
  · split at h
    · split at h <;> cases h
    · cases h

theorem perform_honest (action : Action) : Honest (perform p i action) := by
  have destination : ∀ (s : State) kind, i.variableAt 1 = .error (.frames (.missing kind)) →
      s.frames.frameAt? kind.site = none := fun _ _ h => absurd h operandOf_ne_frames
  have label : ∀ (s : State) kind, target p i 1 = .error (.frames (.missing kind)) →
      s.frames.frameAt? kind.site = none := fun _ _ h => absurd h target_ne_frames
  have computed {α : Type} (result : Except Operation.Fault α) :
      ∀ (s : State) kind, compute i result = .error (.frames (.missing kind)) →
        s.frames.frameAt? kind.site = none := fun _ _ h => absurd h compute_ne_frames
  have symbol (k : Nat) : ∀ (s : State) kind, s.symbol i k = .error (.frames (.missing kind)) →
      s.frames.frameAt? kind.site = none := fun _ _ => symbolBy_missing fun _ => Frames.read_missing
  have top : ∀ (s : State) kind, s.top = .error (.frames (.missing kind)) →
      s.frames.frameAt? kind.site = none := by
    intro s kind h
    unfold State.top at h
    split at h <;> cases h
  have topTwo : ∀ (s : State) kind, s.topTwo = .error (.frames (.missing kind)) →
      s.frames.frameAt? kind.site = none := by
    intro s kind h
    unfold State.topTwo at h
    split at h <;> cases h
  have goToIf (c : Prop) [Decidable c] (order : Order) :
      Honest (if c then goTo order else pure () : Exec Unit) := by
    split
    · exact (total_goTo order).honest
    · exact (total_pure ()).honest
  cases action with
  | createFrame =>
    refine honest_changeFrames (f := fun fs => .ok fs.create) ?_
    intro fs kind h
    cases h
  | pushFrame => exact honest_changeFrames fun _ _ => Frames.push_missing
  | popFrame => exact honest_changeFrames fun _ _ => Frames.pop_missing
  | declare =>
    refine honest_ask_bind destination fun v => honest_changeFrames ?_
    exact fun _ _ => Frames.declare_missing
  | call =>
    refine honest_ask_bind label fun order => Total.honest ?_
    exact Total.bind (total_modify _) fun _ => total_goTo order
  | returnBack =>
    exact honest_popCall.bind (keeps_popCall (by decide)) fun order => (total_goTo order).honest
  | proceed | exit => exact (total_pure ()).honest
  | jump => exact honest_ask_bind label fun order => (total_goTo order).honest
  | jumpIf equal =>
    refine honest_ask_bind label fun order => honest_ask_bind (symbol 2) fun a => ?_
    refine honest_ask_bind (symbol 3) fun b => honest_ask_bind (computed _) fun result => ?_
    exact goToIf _ order
  | move =>
    refine honest_ask_bind destination fun v => honest_ask_bind (symbol 2) fun value => ?_
    exact honest_store v value
  | push => exact honest_ask_bind (symbol 1) fun value => (total_modify _).honest
  | pop =>
    refine honest_ask_bind destination fun v => ?_
    refine honest_ask_bind (fun _ _ => ensureDeclared_missing) fun _ => ?_
    exact honest_popData.bind (keeps_popData (by decide)) fun value => honest_store v value
  | clear => exact (total_modify _).honest
  | binary op =>
    refine honest_ask_bind destination fun v => honest_ask_bind (symbol 2) fun a => ?_
    refine honest_ask_bind (symbol 3) fun b => honest_ask_bind (computed _) fun value => ?_
    exact honest_store v value
  | unary op =>
    refine honest_ask_bind destination fun v => honest_ask_bind (symbol 2) fun a => ?_
    exact honest_ask_bind (computed _) fun value => honest_store v value
  | setChar =>
    refine honest_ask_bind destination fun v => honest_ask_bind ?_ fun current => ?_
    · intro s kind h
      obtain ⟨d, hd, he⟩ := mapError_eq_error.mp h
      cases he
      exact Frames.read_missing hd
    refine honest_ask_bind (symbol 2) fun index => honest_ask_bind (symbol 3) fun replacement => ?_
    exact honest_ask_bind (computed _) fun value => honest_store v value
  | typeOf =>
    refine honest_ask_bind destination fun v => ?_
    exact honest_ask_bind
      (fun _ _ => symbolBy_missing fun _ => Frames.lookup_missing) fun value => honest_store v _
  | stackBinary op =>
    refine honest_ask_bind topTwo fun (a, b) => honest_ask_bind (computed _) fun value => ?_
    exact (Total.bind (total_modify _) fun _ => total_modify _).honest
  | stackUnary op =>
    refine honest_ask_bind top fun a => honest_ask_bind (computed _) fun value => ?_
    exact (Total.bind (total_modify _) fun _ => total_modify _).honest
  | stackJumpIf equal =>
    refine honest_ask_bind label fun order => honest_ask_bind topTwo fun (a, b) => ?_
    refine honest_ask_bind (computed _) fun result => ?_
    refine Honest.bind (total_modify _).honest (keeps_dropData (by decide) 2) fun _ => ?_
    exact goToIf _ order
  | read =>
    refine honest_ask_bind destination fun v => ?_
    refine honest_ask_bind (fun _ _ h => absurd h operandOf_ne_frames) fun requested => ?_
    split
    · refine honest_ask_bind (fun _ _ => ensureDeclared_missing) fun _ => ?_
      exact total_nextLine.honest.bind (keeps_nextLine (by decide)) fun line => honest_store v _
    · refine honest_ask ?_
      intro s kind h
      cases h
  | write => exact honest_ask_bind (symbol 1) fun value => honest_emit _
  | print => exact honest_ask_bind (symbol 1) fun value => honest_diagnose _
  | report =>
    refine honest_ask_bind ?_ fun text => honest_diagnose text
    intro s kind h
    cases h

theorem dispatch_honest : Honest (dispatch p i) := by
  unfold dispatch
  split
  · exact honest_ask_bind (fun _ _ => exitCode_missing) fun code => (total_pure _).honest
  · intro s t kind h
    rcases apply_bind_eq_error.mp h with h | ⟨_, u, -, h⟩
    · exact perform_honest _ s t kind h
    · cases h

/-- A step that reports a frame missing is right. -/
theorem step_missing {e : Failure} (h : (s.step p).1 = .error e)
    (he : e.fault = .frames (.missing kind)) : s.frames.frameAt? kind.site = none := by
  unfold State.step at h
  split at h
  · cases h
  · dsimp only at h
    split at h
    · rename_i fault hfault
      have harity := isArity_of_arityFault? hfault
      cases h
      rw [show fault = .frames (.missing kind) from he] at harity
      cases harity
    · obtain ⟨fault, hfault, hmk⟩ := mapError_eq_error.mp h
      rw [← hmk] at he
      rw [show fault = .frames (.missing kind) from he] at hfault
      exact dispatch_honest (fetched s _) _ kind (Prod.ext hfault rfl)

end Missing

/-! Pushes and pops. -/

section Moves

variable {p : Program} {i : Instruction} {s : State}

theorem step_pushFrame (hi : p.after? s.pc = some i) (hop : i.opcode = .pushFrame)
    (hfits : i.arityFault? = none) :
    (s.step p).1 = if s.frames.temporary = none
      then .error ⟨i.order, .frames (.missing .temporary)⟩ else .ok .running := by
  have ha : Action.ofOpcode i.opcode = .pushFrame := by rw [hop]; rfl
  rw [step_eq_perform hi hfits ha (by simp)]
  cases ht : s.frames.temporary with
  | none => simp [perform, changeFrames, fetched, Frames.push, ht]
  | some f => simp [perform, changeFrames, fetched, Frames.push, ht]

theorem step_popFrame (hi : p.after? s.pc = some i) (hop : i.opcode = .popFrame)
    (hfits : i.arityFault? = none) :
    (s.step p).1 = if s.frames.locals = []
      then .error ⟨i.order, .frames (.missing .local)⟩ else .ok .running := by
  have ha : Action.ofOpcode i.opcode = .popFrame := by rw [hop]; rfl
  rw [step_eq_perform hi hfits ha (by simp)]
  cases hl : s.frames.locals with
  | nil => simp [perform, changeFrames, fetched, Frames.pop, hl]
  | cons f rest => simp [perform, changeFrames, fetched, Frames.pop, hl]

theorem fails_iff {fault : Fault} {c : Prop} [Decidable c] (hi : p.after? s.pc = some i)
    (h : i.arityFault? = none →
      (s.step p).1 = if c then .error ⟨i.order, fault⟩ else .ok .running) :
    ((∃ e, (s.step p).1 = .error e) ↔ i.arityFault? ≠ none ∨ c) ∧
      ∀ e, (s.step p).1 = .error e → i.arityFault? = none → e = ⟨i.order, fault⟩ := by
  cases harity : i.arityFault? with
  | some other =>
    rw [step_of_arityFault hi harity]
    simp
  | none =>
    rw [h harity]
    by_cases hc : c
    · simp [hc, eq_comm]
    · simp [hc]

end Moves

/-- The temporary frame is there if the last of the moves of frames left it, and there are as many
local frames as pushes exceed pops. A push fails if its operands do not fit or there is no temporary
frame, a pop if its operands do not fit or there is no local frame, and otherwise a frame is
reported missing only if by this account it is not there; the global frame never is. -/
theorem frames_told_by_history (p : Program) (input : Input) (output diagnostics : Gate)
    (n : Nat) :
    let s := (State.fresh input output diagnostics).afterSteps p n
    let h := (State.fresh input output diagnostics).frameHistory p n
    (s.frames.temporary.isSome ↔ LeavesTemporary h) ∧
    s.frames.locals.length = heightAfter h ∧
    (∀ i, p.after? s.pc = some i → i.opcode = .pushFrame →
      ((∃ e, (s.step p).1 = .error e) ↔ i.arityFault? ≠ none ∨ ¬ LeavesTemporary h) ∧
      ∀ e, (s.step p).1 = .error e → i.arityFault? = none →
        e = ⟨i.order, .frames (.missing .temporary)⟩) ∧
    (∀ i, p.after? s.pc = some i → i.opcode = .popFrame →
      ((∃ e, (s.step p).1 = .error e) ↔ i.arityFault? ≠ none ∨ heightAfter h = 0) ∧
      ∀ e, (s.step p).1 = .error e → i.arityFault? = none →
        e = ⟨i.order, .frames (.missing .local)⟩) ∧
    ∀ e kind, (s.step p).1 = .error e → e.fault = .frames (.missing kind) →
      (kind = .temporary ∧ ¬ LeavesTemporary h) ∨ (kind = .local ∧ heightAfter h = 0) := by
  intro s h
  have ha : Accounts h s.frames := by
    apply afterSteps_accounts
    constructor
    · simp [State.fresh, LeavesTemporary]
    · rfl
  rw [← ha.temporary_eq_none, ← ha.locals_eq_nil]
  refine ⟨ha.temporary, ha.locals, ?_, ?_, ?_⟩
  · intro i hi hop
    exact fails_iff hi (step_pushFrame hi hop)
  · intro i hi hop
    exact fails_iff hi (step_popFrame hi hop)
  · intro e kind hstep he
    have hnone := step_missing hstep he
    cases kind with
    | global => cases hnone
    | temporary => exact .inl ⟨rfl, hnone⟩
    | «local» =>
      refine .inr ⟨rfl, ?_⟩
      cases hl : s.frames.locals with
      | nil => rfl
      | cons f rest => simp [FrameKind.site, Frames.frameAt?, hl] at hnone

/-- A second push in a row and a second pop in a row fail, after a first pop that failed too. -/
theorem second_push_and_pop_fail :
    let push : Instruction := { order := 4, opcode := .pushFrame }
    let pop : Instruction := { order := 6, opcode := .popFrame }
    let p : Program := ⟨⟨[
      (1, { order := 1, opcode := .popFrame }),
      (2, { order := 2, opcode := .createFrame }),
      (3, { order := 3, opcode := .pushFrame }),
      (4, push),
      (5, { order := 5, opcode := .popFrame }),
      (6, pop)]⟩, .empty, 6⟩
    (((State.fresh {} {} {}).afterSteps p 3).step p).1 =
        .error ⟨push.order, .frames (.missing .temporary)⟩ ∧
      ((State.fresh {} {} {}).afterSteps p 5).frames.temporary.isSome ∧
      (((State.fresh {} {} {}).afterSteps p 5).frames.locals.length : Int) = 0 ∧
      (((State.fresh {} {} {}).afterSteps p 5).step p).1 =
        .error ⟨pop.order, .frames (.missing .local)⟩ := by
  intro push pop p
  have hpush : p.after? ((State.fresh {} {} {}).afterSteps p 3).pc = some push := by
    decide +kernel
  have hpop : p.after? ((State.fresh {} {} {}).afterSteps p 5).pc = some pop := by
    decide +kernel
  have hpushed : ¬ LeavesTemporary ((State.fresh {} {} {}).frameHistory p 3) := by decide +kernel
  have hpopped : LeavesTemporary ((State.fresh {} {} {}).frameHistory p 5) := by decide +kernel
  have hheight : heightAfter ((State.fresh {} {} {}).frameHistory p 5) = 0 := by decide +kernel
  obtain ⟨-, -, hpushes, -, -⟩ := frames_told_by_history p {} {} {} 3
  obtain ⟨htemporary, hlocals, -, hpops, -⟩ := frames_told_by_history p {} {} {} 5
  obtain ⟨hpushFails, hpushFault⟩ := hpushes push hpush rfl
  obtain ⟨hpopFails, hpopFault⟩ := hpops pop hpop rfl
  obtain ⟨e, he⟩ := hpushFails.mpr (.inr hpushed)
  obtain ⟨e', he'⟩ := hpopFails.mpr (.inr hheight)
  refine ⟨?_, htemporary.mpr hpopped, ?_, ?_⟩
  · rw [he, hpushFault e he rfl]
  · rw [hlocals, hheight]
  · rw [he', hpopFault e' he' rfl]

/-- The temporary frame being there is not enough for a push: one with an operand is refused. -/
theorem push_with_operand_refused :
    ¬ ∀ (p : Program) (input : Input) (output diagnostics : Gate) (n : Nat) (i : Instruction),
      p.Reachable →
      let s := (State.fresh input output diagnostics).afterSteps p n
      p.after? s.pc = some i → i.opcode = .pushFrame →
        ((∃ e, (s.step p).1 = .error e) ↔ s.frames.temporary = none) := by
  intro hall
  let push : Instruction := { order := 2, opcode := .pushFrame, arg1 := some (.const (.int 1)) }
  let p : Program := ⟨⟨[(1, { order := 1, opcode := .createFrame }), (2, push)]⟩, .empty, 2⟩
  have hp : p.Reachable := Program.reachable_ofInstructions
    (show Program.ofInstructions [{ order := 1, opcode := .createFrame }, push] = .ok p from rfl)
  have hi : p.after? ((State.fresh {} {} {}).afterSteps p 1).pc = some push := by decide +kernel
  have hthere : ((State.fresh {} {} {}).afterSteps p 1).frames.temporary ≠ none := by
    decide +kernel
  have hrefused := congrArg Prod.fst (step_of_arityFault hi rfl)
  exact hthere ((hall p {} {} {} 1 push hp hi rfl).mp ⟨_, hrefused⟩)

end Machine

end ThreeAddress
