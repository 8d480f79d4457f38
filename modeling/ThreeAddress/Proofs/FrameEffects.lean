import ThreeAddress.Proofs.ControlFlow

/-! What a step does to the frames. Three instructions move whole frames; every other one changes
at most one slot, the one that its first operand names, and says beforehand what it puts there. -/

namespace ThreeAddress

theorem Table.get?_replace {κ α : Type} [DecidableEq κ] (t : Table κ α) (k : κ) (a : α) (k' : κ) :
    (t.replace k a).get? k' = if k' = k then (t.get? k).map fun _ => a else t.get? k' := by
  obtain ⟨entries⟩ := t
  rw [replace, get?, get?, get?]
  dsimp only
  induction entries with
  | nil => simp
  | cons e entries ih =>
    rw [List.map_cons, lookup_cons_if, lookup_cons_if, lookup_cons_if, ih]
    by_cases he : e.1 = k
    · by_cases hk : k' = k
      · simp [he, hk]
      · simp [he, hk]
    · by_cases hk : k' = k
      · subst hk
        simp [he, Ne.symm he]
      · simp [he, hk]

namespace Frame

def set (f : Frame) (name : String) (slot : Option Value) : Frame :=
  if f.contains name then f.replace name slot else f.insert name slot

theorem get?_set (f : Frame) (name : String) (slot : Option Value) (other : String) :
    (f.set name slot).get? other = if other = name then some slot else f.get? other := by
  unfold set
  split
  · rename_i hc
    obtain ⟨old, hold⟩ := Option.isSome_iff_exists.mp hc
    rw [Table.get?_replace, hold]
    rfl
  · rename_i hc
    exact Table.get?_insert (Bool.not_eq_true _ ▸ hc) slot other

/-- What is declared stays declared, and what has a value stays with one, though it may be
another. -/
def Persists (f g : Frame) : Prop :=
  ∀ name slot, f.get? name = some slot →
    ∃ later, g.get? name = some later ∧ (slot.isSome → later.isSome)

theorem Persists.refl (f : Frame) : f.Persists f := by
  intro name slot h
  exact ⟨slot, h, id⟩

theorem Persists.trans {f g k : Frame} (hfg : f.Persists g) (hgk : g.Persists k) :
    f.Persists k := by
  intro name slot h
  obtain ⟨later, hlater, hvalue⟩ := hfg name slot h
  obtain ⟨latest, hlatest, hvalue'⟩ := hgk name later hlater
  exact ⟨latest, hlatest, fun hs => hvalue' (hvalue hs)⟩

theorem persists_set {f : Frame} {name : String} {slot : Option Value}
    (h : slot.isSome ∨ f.get? name = none) : f.Persists (f.set name slot) := by
  intro other old hold
  rw [get?_set]
  by_cases ho : other = name
  · subst ho
    rcases h with h | h
    · exact ⟨slot, by simp, fun _ => h⟩
    · simp [h] at hold
  · exact ⟨old, by simp [ho, hold], id⟩

end Frame

namespace Frames

/-- Where frames are. Of the local ones, which are counted from the top, a variable can only be in
the first. -/
inductive Site where
  | global
  | temporary
  | local (depth : Nat)
  deriving DecidableEq, Repr

def frameAt? (fs : Frames) : Site → Option Frame
  | .global => some fs.global
  | .temporary => fs.temporary
  | .local depth => fs.locals[depth]?

def slotAt? (fs : Frames) (site : Site) (name : String) : Option (Option Value) :=
  (fs.frameAt? site).bind fun f => f.get? name

end Frames

def FrameKind.site : FrameKind → Frames.Site
  | .global => .global
  | .temporary => .temporary
  | .local => .local 0

namespace Frames

variable {fs gs : Frames} {kind : FrameKind} {v : Variable} {f : Frame}

theorem resolve_eq_ok : fs.resolve kind = .ok f ↔ fs.frameAt? kind.site = some f := by
  unfold resolve
  cases kind with
  | global => simp [FrameKind.site, frameAt?]
  | temporary => cases ht : fs.temporary <;> simp [FrameKind.site, frameAt?, ht]
  | «local» => cases hl : fs.locals <;> simp [FrameKind.site, frameAt?, hl]

theorem resolve_eq_error {fault : Fault} :
    fs.resolve kind = .error fault ↔ fault = .missing kind ∧ fs.frameAt? kind.site = none := by
  unfold resolve
  cases kind with
  | global => simp [FrameKind.site, frameAt?]
  | temporary => cases ht : fs.temporary <;> simp [FrameKind.site, frameAt?, ht, eq_comm]
  | «local» => cases hl : fs.locals <;> simp [FrameKind.site, frameAt?, hl, eq_comm]

theorem frameAt?_put (h : fs.resolve kind = .ok f) (g : Frame) (site : Site) :
    (fs.put kind g).frameAt? site = if site = kind.site then some g else fs.frameAt? site := by
  rw [resolve_eq_ok] at h
  cases kind with
  | global => cases site <;> simp [put, frameAt?, FrameKind.site]
  | temporary =>
    simp only [FrameKind.site, frameAt?] at h
    cases site <;> simp [put, frameAt?, FrameKind.site, h]
  | «local» =>
    obtain ⟨rest, hrest⟩ : ∃ rest, fs.locals = f :: rest := by
      cases hl : fs.locals <;> simp_all [FrameKind.site, frameAt?]
    cases site with
    | global | temporary => simp [put, frameAt?, FrameKind.site]
    | «local» depth => cases depth <;> simp [put, frameAt?, FrameKind.site, hrest]

theorem lookup_eq_ok {slot : Option Value} :
    fs.lookup v = .ok slot ↔ fs.slotAt? v.frame.site v.name = some slot := by
  rw [lookup, slotAt?, bind_eq_ok, Option.bind_eq_some_iff]
  constructor
  · rintro ⟨f, hf, h⟩
    refine ⟨f, resolve_eq_ok.mp hf, ?_⟩
    cases hg : f.get? v.name <;> simp_all
  · rintro ⟨f, hf, h⟩
    exact ⟨f, resolve_eq_ok.mpr hf, by simp [h]⟩

theorem lookup_undeclared (hf : fs.resolve v.frame = .ok f) (h : f.get? v.name = none) :
    fs.lookup v = .error (.undeclared v) := by
  simp [lookup, hf, h, bind, Except.bind]

theorem declare_eq_ok (h : fs.declare v = .ok gs) :
    ∃ f, fs.resolve v.frame = .ok f ∧ f.get? v.name = none ∧
      gs = fs.put v.frame (f.set v.name none) := by
  obtain ⟨f, hf, h⟩ := bind_eq_ok.mp h
  split at h
  · cases h
  · rename_i hc
    have hn : f.get? v.name = none := by simpa [Table.contains] using hc
    refine ⟨f, hf, hn, ?_⟩
    rw [Frame.set, if_neg hc]
    exact (Except.ok.inj h).symm

theorem assign_eq_ok {value : Value} (h : fs.assign v value = .ok gs) :
    ∃ f, fs.resolve v.frame = .ok f ∧ (∃ slot, f.get? v.name = some slot) ∧
      gs = fs.put v.frame (f.set v.name (some value)) := by
  obtain ⟨f, hf, h⟩ := bind_eq_ok.mp h
  split at h
  · rename_i hc
    refine ⟨f, hf, Option.isSome_iff_exists.mp hc, ?_⟩
    rw [Frame.set, if_pos hc]
    exact (Except.ok.inj h).symm
  · cases h

/-- The frames are the same but for what they have for one variable. -/
structure Alters (fs gs : Frames) (v : Variable) (slot : Option Value) : Prop where
  altered : gs.lookup v = .ok slot
  others : ∀ site name, site ≠ v.frame.site ∨ name ≠ v.name →
    gs.slotAt? site name = fs.slotAt? site name
  exist : ∀ site, (gs.frameAt? site).isSome = (fs.frameAt? site).isSome

theorem alters_put (h : fs.resolve v.frame = .ok f) (slot : Option Value) :
    fs.Alters (fs.put v.frame (f.set v.name slot)) v slot := by
  have hf := resolve_eq_ok.mp h
  constructor
  · rw [lookup_eq_ok, slotAt?, frameAt?_put h]
    simp [Frame.get?_set]
  · intro site name hother
    rw [slotAt?, slotAt?, frameAt?_put h]
    by_cases hsite : site = v.frame.site
    · have hname : name ≠ v.name := hother.resolve_left fun hne => hne hsite
      simp [hsite, hf, Frame.get?_set, hname]
    · simp [hsite]
  · intro site
    rw [frameAt?_put h]
    by_cases hsite : site = v.frame.site
    · simp [hsite, hf]
    · simp [hsite]

end Frames

def Opcode.framing : List Opcode := [.createFrame, .pushFrame, .popFrame]

def Opcode.storing : List Opcode :=
  [.move, .popS, .read, .typeOf, .setChar, .add, .sub, .mul, .div, .idiv, .lt, .gt, .eq, .and, .or,
    .not, .int2Char, .stri2Int, .int2Float, .float2Int, .concat, .strLen, .getChar]

namespace Machine

open Exec

def State.result? (s : State) (i : Instruction) : Option Value :=
  match Action.ofOpcode i.opcode with
  | .move => (s.symbol i 2).toOption
  | .pop => s.data.head?
  | .read => (i.typeAt 2).toOption.map (Input.value s.input.next.1)
  | .typeOf => (s.symbolOrVacant i 2).toOption.map Operation.typeName
  | .unary op => do
    let a ← (s.symbol i 2).toOption
    (op.apply a).toOption
  | .binary op => do
    let a ← (s.symbol i 2).toOption
    let b ← (s.symbol i 3).toOption
    (op.apply a b).toOption
  | .setChar => do
    let v ← (i.variableAt 1).toOption
    let current ← (s.frames.read v).toOption
    let index ← (s.symbol i 2).toOption
    let replacement ← (s.symbol i 3).toOption
    (Operation.setChar current index replacement).toOption
  | _ => none

/-- What an instruction that succeeds in the given state makes of the frames. -/
inductive FrameEffect (s : State) (i : Instruction) (gs : Frames) : Prop where
  | keeps : i.opcode ∉ Opcode.framing → i.opcode ≠ .defVar → i.opcode ∉ Opcode.storing →
      gs = s.frames → FrameEffect s i gs
  | creates : i.opcode = .createFrame → gs = s.frames.create → FrameEffect s i gs
  | pushes (f : Frame) : i.opcode = .pushFrame → s.frames.temporary = some f →
      gs = { s.frames with temporary := none, locals := f :: s.frames.locals } →
      FrameEffect s i gs
  | pops (f : Frame) (rest : List Frame) : i.opcode = .popFrame → s.frames.locals = f :: rest →
      gs = { s.frames with temporary := some f, locals := rest } → FrameEffect s i gs
  | declares (v : Variable) (f : Frame) : i.opcode = .defVar → i.get? 1 = some (.var v) →
      s.frames.resolve v.frame = .ok f → f.get? v.name = none →
      gs = s.frames.put v.frame (f.set v.name none) → FrameEffect s i gs
  | stores (v : Variable) (f : Frame) (value : Value) : i.opcode ∈ Opcode.storing →
      i.get? 1 = some (.var v) → s.result? i = some value → s.frames.resolve v.frame = .ok f →
      (∃ slot, f.get? v.name = some slot) →
      gs = s.frames.put v.frame (f.set v.name (some value)) → FrameEffect s i gs

section Effects

variable {p : Program} {i : Instruction} {s t : State}

/-- No two opcodes do the same: each is the first in the list of all with its action. -/
theorem ofOpcode_injective {a b : Opcode} (h : Action.ofOpcode a = Action.ofOpcode b) : a = b := by
  have find (o : Opcode) :
      Opcode.all.find? (fun x => decide (Action.ofOpcode x = Action.ofOpcode o)) = some o := by
    cases o <;> rfl
  have ha := find a
  rw [h, find b] at ha
  exact (Option.some.inj ha).symm

theorem frames_touched_iff (opcode : Opcode) :
    Part.frames ∈ (Action.ofOpcode opcode).touched ↔
      opcode ∈ Opcode.framing ∨ opcode = .defVar ∨ opcode ∈ Opcode.storing := by
  cases opcode <;> decide

theorem mem_storing_of_result? {value : Value} (h : s.result? i = some value) :
    i.opcode ∈ Opcode.storing := by
  rw [State.result?] at h
  cases hop : i.opcode <;> simp_all [Action.ofOpcode, Opcode.storing]

theorem Exec.changeFrames_eq_ok {f : Frames → Except Frames.Fault Frames}
    (h : changeFrames f s = (.ok (), t)) : f s.frames = .ok t.frames := by
  unfold changeFrames at h
  split at h
  · rename_i frames hf
    obtain rfl : { s with frames := frames } = t := congrArg Prod.snd h
    exact hf
  · cases h

/-- The destination is stored to last, when only other parts of the state have changed. -/
theorem stores_of_store {u : State} {v : Variable} {value : Value} (hv : i.variableAt 1 = .ok v)
    (hvalue : s.result? i = some value) (hu : u.frames = s.frames)
    (h : store v value u = (.ok (), t)) : FrameEffect s i t.frames := by
  obtain ⟨f, hf, hslot, hgs⟩ := Frames.assign_eq_ok (changeFrames_eq_ok h)
  rw [hu] at hf hgs
  exact .stores v f value (mem_storing_of_result? hvalue) (Instruction.operandOf_eq_ok.mp hv)
    hvalue hf hslot hgs

theorem toOption_of_compute {α : Type} {result : Except Operation.Fault α} {a : α}
    (h : compute i result = .ok a) : result.toOption = some a := by
  rw [mapError_eq_ok.mp h]
  rfl

theorem toOption_of_eq_ok {ε α : Type} {x : Except ε α} {a : α} (h : x = .ok a) :
    x.toOption = some a := by
  rw [h]
  rfl

theorem perform_frames {action : Action} (ha : Action.ofOpcode i.opcode = action)
    (h : perform p i action s = (.ok (), t)) : FrameEffect s i t.frames := by
  have hkeeps (hframes : Part.frames ∉ action.touched) : FrameEffect s i t.frames := by
    have hsame : Part.frames.Same s (perform p i action s).2 := perform_keeps hframes s
    rw [h] at hsame
    rw [← ha, frames_touched_iff, not_or, not_or] at hframes
    exact .keeps hframes.1 hframes.2.1 hframes.2.2 hsame
  cases action with
  | createFrame =>
    have hop : i.opcode = .createFrame := ofOpcode_injective ha
    have hcreate := changeFrames_eq_ok (f := fun fs => .ok fs.create) h
    exact .creates hop (Except.ok.inj hcreate).symm
  | pushFrame =>
    have hop : i.opcode = .pushFrame := ofOpcode_injective ha
    have hpush := changeFrames_eq_ok h
    unfold Frames.push at hpush
    split at hpush
    · rename_i f hf
      exact .pushes f hop hf (Except.ok.inj hpush).symm
    · cases hpush
  | popFrame =>
    have hop : i.opcode = .popFrame := ofOpcode_injective ha
    have hpop := changeFrames_eq_ok h
    unfold Frames.pop at hpop
    split at hpop
    · rename_i f rest hlocals
      exact .pops f rest hop hlocals (Except.ok.inj hpop).symm
    · cases hpop
  | declare =>
    have hop : i.opcode = .defVar := ofOpcode_injective ha
    obtain ⟨v, hv, h⟩ := ask_bind_eq_ok.mp h
    obtain ⟨f, hf, hnone, hgs⟩ := Frames.declare_eq_ok (changeFrames_eq_ok h)
    exact .declares v f hop (Instruction.operandOf_eq_ok.mp hv) hf hnone hgs
  | move =>
    obtain ⟨v, hv, h⟩ := ask_bind_eq_ok.mp h
    obtain ⟨value, hvalue, h⟩ := ask_bind_eq_ok.mp h
    refine stores_of_store hv ?_ rfl h
    simp [State.result?, ha, toOption_of_eq_ok hvalue]
  | pop =>
    obtain ⟨v, hv, h⟩ := ask_bind_eq_ok.mp h
    obtain ⟨_, -, h⟩ := ask_bind_eq_ok.mp h
    obtain ⟨value, u, hu, h⟩ := apply_bind_eq_ok.mp h
    refine stores_of_store hv ?_ (keepsFrames_popData s value u hu) h
    unfold popData at hu
    split at hu
    · rename_i top rest hdata
      rw [Prod.mk.injEq, Except.ok.injEq] at hu
      simp [State.result?, ha, hdata, hu.1]
    · cases hu
  | binary op =>
    obtain ⟨v, hv, h⟩ := ask_bind_eq_ok.mp h
    obtain ⟨a, hsymbol₂, h⟩ := ask_bind_eq_ok.mp h
    obtain ⟨b, hsymbol₃, h⟩ := ask_bind_eq_ok.mp h
    obtain ⟨value, hvalue, h⟩ := ask_bind_eq_ok.mp h
    refine stores_of_store hv ?_ rfl h
    simp [State.result?, ha, toOption_of_eq_ok hsymbol₂, toOption_of_eq_ok hsymbol₃,
      toOption_of_compute hvalue]
  | unary op =>
    obtain ⟨v, hv, h⟩ := ask_bind_eq_ok.mp h
    obtain ⟨a, hsymbol₂, h⟩ := ask_bind_eq_ok.mp h
    obtain ⟨value, hvalue, h⟩ := ask_bind_eq_ok.mp h
    refine stores_of_store hv ?_ rfl h
    simp [State.result?, ha, toOption_of_eq_ok hsymbol₂, toOption_of_compute hvalue]
  | setChar =>
    obtain ⟨v, (hv : i.variableAt 1 = .ok v), h⟩ := ask_bind_eq_ok.mp h
    obtain ⟨current, hcurrent, h⟩ := ask_bind_eq_ok.mp h
    obtain ⟨index, hsymbol₂, h⟩ := ask_bind_eq_ok.mp h
    obtain ⟨replacement, hsymbol₃, h⟩ := ask_bind_eq_ok.mp h
    obtain ⟨value, hvalue, h⟩ := ask_bind_eq_ok.mp h
    refine stores_of_store hv ?_ rfl h
    simp [State.result?, ha, toOption_of_eq_ok hv,
      toOption_of_eq_ok (mapError_eq_ok.mp hcurrent), toOption_of_eq_ok hsymbol₂,
      toOption_of_eq_ok hsymbol₃, toOption_of_compute hvalue]
  | typeOf =>
    obtain ⟨v, hv, h⟩ := ask_bind_eq_ok.mp h
    obtain ⟨value, hvalue, h⟩ := ask_bind_eq_ok.mp h
    refine stores_of_store hv ?_ rfl h
    simp [State.result?, ha, toOption_of_eq_ok hvalue]
  | read =>
    obtain ⟨v, hv, h⟩ := ask_bind_eq_ok.mp h
    obtain ⟨requested, (hrequested : i.typeAt 2 = .ok requested), h⟩ := ask_bind_eq_ok.mp h
    split at h
    · obtain ⟨_, -, h⟩ := ask_bind_eq_ok.mp h
      obtain ⟨line, u, hu, h⟩ := apply_bind_eq_ok.mp h
      refine stores_of_store hv ?_ (keepsFrames_nextLine s line u hu) h
      have hline : s.input.next.1 = line := Except.ok.inj (congrArg Prod.fst hu)
      simp [State.result?, ha, toOption_of_eq_ok hrequested, hline]
    · cases h
  | _ => exact hkeeps (by simp [Action.touched])

theorem step_frames {status : Status} (hi : p.after? s.pc = some i)
    (h : s.step p = (.ok status, t)) : FrameEffect s i t.frames := by
  -- to fetch an instruction leaves alone all that its effect on the frames depends on
  cases perform_frames rfl (perform_of_step hi h) with
  | keeps hframing hdefVar hstoring hgs => exact .keeps hframing hdefVar hstoring hgs
  | creates hop hgs => exact .creates hop hgs
  | pushes f hop hf hgs => exact .pushes f hop hf hgs
  | pops f rest hop hlocals hgs => exact .pops f rest hop hlocals hgs
  | declares v f hop hv hf hnone hgs => exact .declares v f hop hv hf hnone hgs
  | stores v f value hop hv hvalue hf hslot hgs =>
    exact .stores v f value hop hv hvalue hf hslot hgs

end Effects

/-- The instruction that the next step carries out, provided that there is one and it does not
fail. -/
def State.completed? (p : Program) (s : State) : Option Instruction :=
  match (s.step p).1 with
  | .ok _ => p.after? s.pc
  | .error _ => none

section Steps

variable {p : Program} {i : Instruction} {s t : State}

theorem completed?_eq_some :
    s.completed? p = some i ↔
      p.after? s.pc = some i ∧ ∃ status, s.step p = (.ok status, (s.step p).2) := by
  rw [State.completed?]
  cases hresult : (s.step p).1 with
  | error e =>
    constructor
    · intro h
      cases h
    · rintro ⟨-, status, h⟩
      rw [h] at hresult
      cases hresult
  | ok status =>
    constructor
    · intro h
      exact ⟨h, status, Prod.ext hresult rfl⟩
    · intro h
      exact h.1

/-- Every step leaves the frames alone, or completes an instruction and has its effect. -/
theorem step_frames_cases (p : Program) (s : State) :
    (s.completed? p = none ∧ (s.step p).2.frames = s.frames) ∨
      ∃ i, s.completed? p = some i ∧ FrameEffect s i (s.step p).2.frames := by
  cases hc : s.completed? p with
  | some i =>
    obtain ⟨hi, status, h⟩ := completed?_eq_some.mp hc
    exact .inr ⟨i, rfl, step_frames hi h⟩
  | none =>
    refine .inl ⟨rfl, ?_⟩
    cases hi : p.after? s.pc with
    | none => rw [State.step, hi]
    | some i =>
      cases hresult : (s.step p).1 with
      | ok status => simp [State.completed?, hresult, hi] at hc
      | error e =>
        obtain ⟨_, _, h⟩ := step_fails hi hresult
        rw [h]

theorem persists_put {fs : Frames} {v : Variable} {f : Frame} {slot : Option Value}
    (hf : fs.resolve v.frame = .ok f) (h : slot.isSome ∨ f.get? v.name = none) :
    fs.global.Persists (fs.put v.frame (f.set v.name slot)).global := by
  have hput := Frames.frameAt?_put hf (f.set v.name slot) .global
  rw [Frames.resolve_eq_ok] at hf
  by_cases hkind : Frames.Site.global = v.frame.site
  · rw [← hkind] at hf
    obtain rfl : fs.global = f := Option.some.inj hf
    rw [if_pos hkind] at hput
    rw [Option.some.inj hput]
    exact Frame.persists_set h
  · rw [if_neg hkind] at hput
    rw [Option.some.inj hput]
    exact .refl _

theorem step_persists (p : Program) (s : State) :
    s.frames.global.Persists (s.step p).2.frames.global := by
  rcases step_frames_cases p s with ⟨-, hsame⟩ | ⟨i, -, heffect⟩
  · rw [hsame]
    exact .refl _
  cases heffect with
  | keeps _ _ _ hgs | creates _ hgs | pushes _ _ _ hgs | pops _ _ _ _ hgs =>
    rw [hgs]
    exact .refl _
  | declares v f _ _ hf hnone hgs =>
    rw [hgs]
    exact persists_put hf (.inr hnone)
  | stores v f value _ _ _ hf _ hgs =>
    rw [hgs]
    exact persists_put hf (.inl rfl)

theorem afterSteps_persists (p : Program) (n : Nat) (s : State) :
    s.frames.global.Persists (s.afterSteps p n).frames.global := by
  induction n generalizing s with
  | zero => exact .refl _
  | succ n ih => exact (step_persists p s).trans (ih (s.step p).2)

end Steps

/-- But for the instructions that move whole frames, a step that succeeds declares the variable that
it names first, or gives that variable a value, or leaves the frames alone; all other variables, of
the same name in other frames too, are what they were. So a global variable once declared stays
declared, and once it has a value it never is without one again. -/
theorem step_alters_one_variable (p : Program) (s : State) :
    (∀ i status t, p.after? s.pc = some i → s.step p = (.ok status, t) →
      i.opcode ∉ Opcode.framing →
      (i.opcode ≠ .defVar ∧ i.opcode ∉ Opcode.storing ∧ t.frames = s.frames) ∨
      (i.opcode = .defVar ∧ ∃ v, i.arg1 = some (.var v) ∧
        s.frames.lookup v = .error (.undeclared v) ∧ s.frames.Alters t.frames v none) ∨
      (i.opcode ∈ Opcode.storing ∧ ∃ v slot value, i.arg1 = some (.var v) ∧
        s.frames.lookup v = .ok slot ∧ s.result? i = some value ∧
        s.frames.Alters t.frames v (some value))) ∧
    (p.after? s.pc = none → (s.step p).2.frames = s.frames) ∧
    ∀ n name slot, s.frames.global.get? name = some slot →
      ∃ later, (s.afterSteps p n).frames.global.get? name = some later ∧
        (slot.isSome → later.isSome) := by
  refine ⟨?_, ?_, fun n => afterSteps_persists p n s⟩
  · intro i status t hi hstep hframing
    cases step_frames hi hstep with
    | keeps _ hdefVar hstoring hgs => exact .inl ⟨hdefVar, hstoring, hgs⟩
    | creates hop | pushes _ hop | pops _ _ hop =>
      rw [hop] at hframing
      exact absurd (by decide) hframing
    | declares v f hop hv hf hnone hgs =>
      rw [hgs]
      exact .inr (.inl ⟨hop, v, hv, Frames.lookup_undeclared hf hnone, Frames.alters_put hf none⟩)
    | stores v f value hop hv hvalue hf hslot hgs =>
      obtain ⟨slot, hslot⟩ := hslot
      have hlookup : s.frames.lookup v = .ok slot := by
        simp [Frames.lookup_eq_ok, Frames.slotAt?, Frames.resolve_eq_ok.mp hf, hslot]
      rw [hgs]
      have halters := Frames.alters_put hf (some value)
      exact .inr (.inr ⟨hop, v, slot, value, hv, hlookup, hvalue, halters⟩)
  · intro hend
    rw [State.step, hend]

/-- A sum goes to the topmost local variable, though others of that name are in every frame. -/
theorem sum_alters_topmost_local :
    let x (kind : FrameKind) : Variable := ⟨kind, "x"⟩
    let holding (n : Int64) : Frame := ⟨[("x", some (.int n))]⟩
    let i : Instruction :=
      ⟨4, .add, some (.var (x .local)), some (.var (x .local)), some (.var (x .global))⟩
    let p : Program := ⟨⟨[(4, i)]⟩, .empty, 4⟩
    let s : State := { frames := {
      global := holding 2, temporary := some (holding 7), locals := [holding 3, holding 9] } }
    let t : State := (s.step p).2
    t.frames.lookup (x .local) = .ok (some (.int 5)) ∧
      t.frames.lookup (x .temporary) = .ok (some (.int 7)) ∧
      t.frames.slotAt? (.local 1) "x" = some (some (.int 9)) ∧
      ∃ later, (s.afterSteps p 3).frames.global.get? "x" = some later ∧ later.isSome := by
  intro x holding i p s t
  obtain ⟨hstep, -, hglobal⟩ := step_alters_one_variable p s
  have hi : p.after? s.pc = some i := by decide +kernel
  have hadd : i.opcode ∈ Opcode.storing := by decide
  obtain ⟨later, hlater, hvalue⟩ := hglobal 3 "x" (some (.int 2)) rfl
  refine ⟨?_, ?_, ?_, later, hlater, hvalue rfl⟩
  all_goals
    rcases hstep i .running t hi rfl (by decide) with ⟨-, hno, -⟩ | ⟨hop, -⟩ |
      ⟨-, v, slot, value, hv, -, hvalue, halters⟩
    · exact absurd hadd hno
    · cases hop
    obtain rfl : x .local = v := Operand.var.inj (Option.some.inj hv)
  · obtain rfl : .int 5 = value := Option.some.inj hvalue
    exact halters.altered
  · rw [Frames.lookup_eq_ok, halters.others _ _ (.inl (by decide))]
    rfl
  · rw [halters.others _ _ (.inl (by decide))]
    rfl

end Machine

end ThreeAddress
