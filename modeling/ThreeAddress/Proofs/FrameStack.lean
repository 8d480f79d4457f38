import ThreeAddress.Proofs.FrameEffects

/-! The stack of local frames. Only the topmost frame can be edited, and a frame comes to the top
again only when those above it have gone, so that a callee cannot touch the frames of its
callers. -/

namespace ThreeAddress

/-- The local frames that are left when all but the lowest `n` are taken away. -/
def Frames.bottom (fs : Frames) (n : Nat) : List Frame := fs.locals.drop (fs.locals.length - n)

def Frame.edited (f : Frame) (edits : List (String × Option Value)) : Frame :=
  edits.foldl (fun f edit => f.set edit.1 edit.2) f

theorem Frame.edited_append (f : Frame) (earlier later : List (String × Option Value)) :
    f.edited (earlier ++ later) = (f.edited earlier).edited later := List.foldl_append

def Instruction.localName? (i : Instruction) : Option String :=
  match i.arg1 with
  | some (.var ⟨.local, name⟩) => some name
  | _ => none

namespace Frames

variable {fs : Frames} {kind : FrameKind} {f : Frame}

theorem bottom_length {above rest : List Frame} (h : fs.locals = above ++ f :: rest) :
    fs.bottom rest.length = rest := by
  have hsplit : fs.locals = (above ++ [f]) ++ rest := by simp [h]
  have hlength : fs.locals.length - rest.length = (above ++ [f]).length := by
    simp only [hsplit, List.length_append]
    omega
  rw [bottom, hlength, hsplit]
  exact List.drop_left

theorem exists_above_bottom {n : Nat} (h : n < fs.locals.length) :
    ∃ above f, fs.locals = above ++ f :: fs.bottom n := by
  have hindex : fs.locals.length - n - 1 < fs.locals.length := by omega
  refine ⟨fs.locals.take (fs.locals.length - n - 1), fs.locals.get ⟨_, hindex⟩, ?_⟩
  have hdrop := List.drop_eq_getElem_cons hindex
  rw [show fs.locals.length - n - 1 + 1 = fs.locals.length - n by omega] at hdrop
  rw [bottom, List.get_eq_getElem, ← hdrop, List.take_append_drop]

theorem length_bottom {n : Nat} (h : n ≤ fs.locals.length) : (fs.bottom n).length = n := by
  rw [bottom, List.length_drop]
  omega

theorem locals_put_of_ne (h : kind ≠ .local) (g : Frame) : (fs.put kind g).locals = fs.locals := by
  cases kind with
  | global | temporary => rfl
  | «local» => exact absurd rfl h

end Frames

namespace Machine

/-- The slot that an instruction has for its destination: a vacant one if it declares it, one with
a value if it stores to it. -/
def State.slotFor? (s : State) (i : Instruction) : Option (Option Value) :=
  if i.opcode = .defVar then some none else (s.result? i).map some

/-- What the next step puts under which name of the topmost local frame, if it does that. -/
def State.localEdit? (p : Program) (s : State) : Option (String × Option Value) := do
  let i ← s.completed? p
  let name ← i.localName?
  let slot ← s.slotFor? i
  return (name, slot)

def State.localEditAt? (p : Program) (height : Nat) (s : State) :
    Option (String × Option Value) :=
  if s.frames.locals.length = height then s.localEdit? p else none

/-- From the state on, and after each of the next `n` steps, there are so many local frames or
more. -/
def State.StaysHigh (p : Program) (height n : Nat) (s : State) : Prop :=
  ∀ k ≤ n, height ≤ (s.afterSteps p k).frames.locals.length

instance (p : Program) (height n : Nat) (s : State) : Decidable (s.StaysHigh p height n) :=
  inferInstanceAs (Decidable (∀ k ≤ n, height ≤ (s.afterSteps p k).frames.locals.length))

inductive LocalsEffect (p : Program) (s t : State) : Prop where
  | stays : s.localEdit? p = none → t.frames.locals = s.frames.locals → LocalsEffect p s t
  | edits (f : Frame) (rest : List Frame) (name : String) (slot : Option Value) :
      s.localEdit? p = some (name, slot) → s.frames.locals = f :: rest →
      t.frames.locals = f.set name slot :: rest → LocalsEffect p s t
  | pushes (f : Frame) : s.localEdit? p = none → s.frames.temporary = some f →
      t.frames.locals = f :: s.frames.locals → LocalsEffect p s t
  | pops (i : Instruction) (f : Frame) : s.localEdit? p = none → s.completed? p = some i →
      i.opcode = .popFrame → s.frames.locals = f :: t.frames.locals →
      t.frames.temporary = some f → LocalsEffect p s t

section Locals

variable {p : Program} {i : Instruction} {s t : State}

theorem localEdit?_eq_none (hc : s.completed? p = some i) (hdefVar : i.opcode ≠ .defVar)
    (hstoring : i.opcode ∉ Opcode.storing) : s.localEdit? p = none := by
  have hresult : s.result? i = none := by
    rw [Option.eq_none_iff_forall_ne_some]
    intro value hvalue
    exact hstoring (mem_storing_of_result? hvalue)
  simp [State.localEdit?, hc, State.slotFor?, hdefVar, hresult]

theorem localEdit?_of_framing (hc : s.completed? p = some i) (h : i.opcode ∈ Opcode.framing) :
    s.localEdit? p = none := by
  have hother : ∀ opcode ∈ Opcode.framing, opcode ≠ .defVar ∧ opcode ∉ Opcode.storing := by decide
  exact localEdit?_eq_none hc (hother _ h).1 (hother _ h).2

theorem localsEffect_put {v : Variable} {f : Frame} {slot : Option Value}
    (hc : s.completed? p = some i) (hv : i.get? 1 = some (.var v))
    (hslot : s.slotFor? i = some slot) (hf : s.frames.resolve v.frame = .ok f)
    (ht : t.frames = s.frames.put v.frame (f.set v.name slot)) : LocalsEffect p s t := by
  have harg : i.arg1 = some (.var v) := hv
  obtain ⟨kind, name⟩ := v
  by_cases hkind : kind = .local
  · subst hkind
    rw [Frames.resolve_eq_ok] at hf
    obtain ⟨rest, hlocals⟩ : ∃ rest, s.frames.locals = f :: rest := by
      cases hl : s.frames.locals <;> simp_all [FrameKind.site, Frames.frameAt?]
    refine .edits f rest name slot ?_ hlocals ?_
    · simp [State.localEdit?, hc, Instruction.localName?, harg, hslot]
    · rw [ht]
      simp [Frames.put, hlocals]
  · refine .stays ?_ ?_
    · cases kind <;> simp_all [State.localEdit?, Instruction.localName?]
    · rw [ht, Frames.locals_put_of_ne hkind]

theorem step_locals (p : Program) (s : State) : LocalsEffect p s (s.step p).2 := by
  rcases step_frames_cases p s with ⟨hc, hsame⟩ | ⟨i, hc, heffect⟩
  · exact .stays (by simp [State.localEdit?, hc]) (by rw [hsame])
  cases heffect with
  | keeps _ hdefVar hstoring hgs =>
    exact .stays (localEdit?_eq_none hc hdefVar hstoring) (by rw [hgs])
  | creates hop hgs =>
    have hedit := localEdit?_of_framing hc (by rw [hop]; decide)
    exact .stays hedit (by rw [hgs, Frames.create])
  | pushes f hop hf hgs =>
    have hedit := localEdit?_of_framing hc (by rw [hop]; decide)
    exact .pushes f hedit hf (by rw [hgs])
  | pops f rest hop hlocals hgs =>
    have hedit := localEdit?_of_framing hc (by rw [hop]; decide)
    exact .pops i f hedit hc hop (by rw [hgs, hlocals]) (by rw [hgs])
  | declares v f hop hv hf _ hgs =>
    exact localsEffect_put hc hv (by simp [State.slotFor?, hop]) hf hgs
  | stores v f value hop hv hvalue hf _ hgs =>
    have hdefVar : i.opcode ≠ .defVar := by
      rintro hdefVar
      rw [hdefVar] at hop
      revert hop
      decide
    exact localsEffect_put hc hv (by simp [State.slotFor?, hdefVar, hvalue]) hf hgs

/-- A frame and those below it stay where they are as long as there are that many. The frame itself
is edited when it is on top, and those below are not. -/
theorem step_bottom {above rest : List Frame} {f : Frame}
    (h : s.frames.locals = above ++ f :: rest)
    (hheight : rest.length < (s.step p).2.frames.locals.length) :
    ∃ above', (s.step p).2.frames.locals =
      above' ++ f.edited (s.localEditAt? p (rest.length + 1)).toList :: rest := by
  have hunedited (hedit : s.localEdit? p = none) :
      f.edited (s.localEditAt? p (rest.length + 1)).toList = f := by
    simp [State.localEditAt?, hedit, Frame.edited]
  cases step_locals p s with
  | stays hedit hlocals => exact ⟨above, by rw [hunedited hedit, hlocals, h]⟩
  | pushes g hedit _ hlocals => exact ⟨g :: above, by rw [hunedited hedit, hlocals, h]; rfl⟩
  | pops i g hedit _ _ hlocals _ =>
    rw [hunedited hedit]
    rw [hlocals] at h
    cases above with
    | nil =>
      have hrest : (s.step p).2.frames.locals = rest := (List.cons.inj h).2
      rw [hrest] at hheight
      omega
    | cons a above => exact ⟨above, (List.cons.inj h).2⟩
  | edits g below name slot hedit hlocals hlocals' =>
    rw [hlocals] at h
    have hlength := congrArg List.length hlocals
    cases above with
    | nil =>
      obtain ⟨rfl, rfl⟩ : g = f ∧ below = rest := List.cons.inj h
      refine ⟨[], ?_⟩
      rw [hlocals']
      simp [State.localEditAt?, hlocals, hedit, Frame.edited]
    | cons a above =>
      obtain ⟨rfl, rfl⟩ : g = a ∧ below = above ++ f :: rest := List.cons.inj h
      refine ⟨g.set name slot :: above, ?_⟩
      have hdeeper : s.frames.locals.length ≠ rest.length + 1 := by
        simp only [List.length_cons, List.length_append] at hlength
        omega
      rw [hlocals']
      simp [State.localEditAt?, hdeeper, Frame.edited]

theorem afterSteps_bottom {above rest : List Frame} {f : Frame}
    (h : s.frames.locals = above ++ f :: rest) {n : Nat}
    (hhigh : s.StaysHigh p (rest.length + 1) n) :
    ∃ above', (s.afterSteps p n).frames.locals = above' ++
      f.edited ((s.visited p n).filterMap (State.localEditAt? p (rest.length + 1))) :: rest := by
  induction n with
  | zero => exact ⟨above, h⟩
  | succ n ih =>
    obtain ⟨above', h'⟩ := ih fun k hk => hhigh k (by omega)
    have hlast := hhigh (n + 1) (Nat.le_refl _)
    rw [afterSteps_succ] at hlast ⊢
    obtain ⟨above'', h''⟩ := step_bottom h' hlast
    refine ⟨above'', ?_⟩
    rw [h'', filterMap_visited_succ, Frame.edited_append]

theorem afterSteps_bottom_eq {d n : Nat} (hd : 1 ≤ d) (hhigh : s.StaysHigh p d n) :
    (s.afterSteps p n).frames.bottom (d - 1) = s.frames.bottom (d - 1) := by
  have hstart : d ≤ s.frames.locals.length := hhigh 0 (Nat.zero_le n)
  have hlength : (s.frames.bottom (d - 1)).length = d - 1 := by
    apply Frames.length_bottom
    omega
  obtain ⟨above, f, h⟩ : ∃ above f, s.frames.locals = above ++ f :: s.frames.bottom (d - 1) := by
    apply Frames.exists_above_bottom
    omega
  have hhigh' : s.StaysHigh p ((s.frames.bottom (d - 1)).length + 1) n := by
    rwa [hlength, Nat.sub_add_cancel hd]
  obtain ⟨above', h'⟩ := afterSteps_bottom h hhigh'
  have hbottom := Frames.bottom_length h'
  rwa [hlength] at hbottom

theorem step_pushes (hi : p.after? s.pc = some i) (hop : i.opcode = .pushFrame)
    (hok : (s.step p).1 = .ok .running) : ∃ pushed, s.frames.temporary = some pushed ∧
      (s.step p).2.frames.locals = pushed :: s.frames.locals := by
  cases step_frames hi (Prod.ext hok rfl) with
  | pushes f _ hf hgs => exact ⟨f, hf, by rw [hgs]⟩
  | keeps hframing => exact absurd (by rw [hop]; decide) hframing
  | creates hop' | pops _ _ hop' | declares _ _ hop' =>
    rw [hop] at hop'
    cases hop'
  | stores _ _ _ hstoring =>
    rw [hop] at hstoring
    exact absurd hstoring (by decide)

theorem pops_of_length_lt (h : (s.step p).2.frames.locals.length < s.frames.locals.length) :
    ∃ j f, s.completed? p = some j ∧ j.opcode = .popFrame ∧
      s.frames.locals = f :: (s.step p).2.frames.locals ∧
      (s.step p).2.frames.temporary = some f := by
  cases step_locals p s with
  | stays _ hlocals =>
    rw [hlocals] at h
    omega
  | edits f rest name slot _ hlocals hlocals' =>
    rw [hlocals, hlocals', List.length_cons, List.length_cons] at h
    omega
  | pushes f _ _ hlocals =>
    rw [hlocals, List.length_cons] at h
    omega
  | pops j f _ hj hpop hlocals htemporary => exact ⟨j, f, hj, hpop, hlocals, htemporary⟩

end Locals

/-- As long as there are `d` local frames, the lowest `d - 1` are out of reach. So from a push of
the temporary frame to the pop that takes the stack back to its height, whatever happens above, the
frames below are untouched, and the pop gives back the frame that was pushed, with the edits that
were made to it while it was on top. -/
theorem callers_frames_isolated (p : Program) (s : State) :
    (∀ d n, 1 ≤ d → s.StaysHigh p d n →
      (s.afterSteps p n).frames.bottom (d - 1) = s.frames.bottom (d - 1)) ∧
    ∀ i n, p.after? s.pc = some i → i.opcode = .pushFrame → (s.step p).1 = .ok .running →
      (s.step p).2.StaysHigh p (s.step p).2.frames.locals.length n →
      ((s.step p).2.afterSteps p (n + 1)).frames.locals.length = s.frames.locals.length →
      let inside : State := (s.step p).2.afterSteps p n
      let back : State := (s.step p).2.afterSteps p (n + 1)
      ∃ pushed j, s.frames.temporary = some pushed ∧
        inside.completed? p = some j ∧ j.opcode = .popFrame ∧
        back.frames.locals = s.frames.locals ∧
        back.frames.temporary = some (pushed.edited
          (((s.step p).2.visited p n).filterMap
            (State.localEditAt? p (s.frames.locals.length + 1)))) := by
  refine ⟨fun d n hd hhigh => afterSteps_bottom_eq hd hhigh, ?_⟩
  intro i n hi hop hok hhigh hback inside back
  obtain ⟨pushed, htemporary, hpushed⟩ := step_pushes hi hop hok
  rw [hpushed, List.length_cons] at hhigh
  have hsplit : (s.step p).2.frames.locals = [] ++ pushed :: s.frames.locals := hpushed
  obtain ⟨above, habove⟩ := afterSteps_bottom hsplit hhigh
  have hlast : back = (inside.step p).2 := afterSteps_succ p n (s.step p).2
  have hlower : (inside.step p).2.frames.locals.length < inside.frames.locals.length := by
    rw [← hlast, hback]
    exact hhigh n (Nat.le_refl n)
  obtain ⟨j, f, hj, hpop, hlocals, hf⟩ := pops_of_length_lt hlower
  rw [← hlast] at hlocals hf
  -- the pushed frame is on top then: nothing else is above the frames that were there before
  have hsame := hlocals.symm.trans habove
  have hnone : above = [] := by
    have hcount := congrArg List.length hsame
    simp only [List.length_cons, List.length_append, back, hback] at hcount
    exact List.length_eq_zero_iff.mp (by omega)
  rw [hnone] at hsame
  obtain ⟨hedited, hrest⟩ := List.cons.inj hsame
  exact ⟨pushed, j, htemporary, hj, hpop, hrest, hedited ▸ hf⟩

/-- A variable of the caller, of the same name, survives a call that assigns to its own, pushes
another frame, declares a variable of that name there, and fails once on the way. -/
theorem caller_variable_survives :
    let x : Variable := ⟨.local, "x"⟩
    let push : Instruction := { order := 2, opcode := .pushFrame }
    let p : Program := ⟨⟨[
      (2, push),
      (3, ⟨3, .move, some (.var x), some (.const (.int 5)), none⟩),
      (4, { order := 4, opcode := .createFrame }),
      (5, { order := 5, opcode := .pushFrame }),
      (6, { order := 6, opcode := .defVar, arg1 := some (.var x) }),
      (7, { order := 7, opcode := .popS, arg1 := some (.var x) }),
      (8, { order := 8, opcode := .popFrame }),
      (9, { order := 9, opcode := .defVar, arg1 := some (.var ⟨.local, "y"⟩) }),
      (10, { order := 10, opcode := .popFrame })]⟩, .empty, 10⟩
    let caller : Frame := ⟨[("x", some (.int 1))]⟩
    let s : State := { frames := { temporary := some ⟨[("x", none)]⟩, locals := [caller] } }
    ((s.step p).2.afterSteps p 7).frames.bottom 1 = [caller] ∧
      ((s.step p).2.afterSteps p (7 + 1)).frames.locals = [caller] ∧
      ((s.step p).2.afterSteps p (7 + 1)).frames.temporary =
        some ⟨[("x", some (.int 5)), ("y", none)]⟩ := by
  intro x push p caller s
  have hi : p.after? s.pc = some push := by decide +kernel
  have hok : (s.step p).1 = .ok .running := by decide +kernel
  have htwo : (s.step p).2.StaysHigh p 2 7 := by decide +kernel
  have hhigh : (s.step p).2.StaysHigh p (s.step p).2.frames.locals.length 7 := by decide +kernel
  have hback : ((s.step p).2.afterSteps p (7 + 1)).frames.locals.length =
      s.frames.locals.length := by
    decide +kernel
  have hbottom := (callers_frames_isolated p (s.step p).2).1 2 7 (by decide) htwo
  obtain ⟨pushed, j, hpushed, -, -, hlocals, htemporary⟩ :=
    (callers_frames_isolated p s).2 push 7 hi rfl hok hhigh hback
  obtain rfl : (⟨[("x", none)]⟩ : Frame) = pushed := Option.some.inj hpushed
  refine ⟨hbottom.trans (by decide +kernel), hlocals, htemporary.trans ?_⟩
  decide +kernel

end Machine

end ThreeAddress
