import ThreeAddress.Proofs.Correspondence
import ThreeAddress.Proofs.ProgramStore

/-! Only the sequence of the orders counts. A program whose instructions get other orders in the
same sequence runs as before, step by step, and each place in its run is the image of a place in the
first one. -/

namespace ThreeAddress

def Instruction.renumber (f : Order → Order) (i : Instruction) : Instruction :=
  i.moveTo (f i.order)

/-- New orders that keep the sequence of the instructions. Zero, where a run starts, stays. -/
structure Renumbering (f : Order → Order) (is : List Instruction) : Prop where
  zero : f 0 = 0
  positive : ∀ i ∈ is, 0 < f i.order
  increasing : ∀ i ∈ is, ∀ j ∈ is, i.order < j.order → f i.order < f j.order

theorem Renumbering.order_eq {f : Order → Order} {is : List Instruction} (hf : Renumbering f is)
    {i j : Instruction} (hi : i ∈ is) (hj : j ∈ is) (h : f i.order = f j.order) :
    i.order = j.order := by
  rcases Std.lt_trichotomy i.order j.order with hlt | heq | hgt
  · exact absurd h (Std.ne_of_lt (hf.increasing i hi j hj hlt))
  · exact heq
  · exact absurd h.symm (Std.ne_of_lt (hf.increasing j hj i hi hgt))

namespace Program

/-- The instructions of `q` are those of `p` with new orders. -/
structure Image (f : Order → Order) (p q : Program) : Prop where
  left : p.Reachable
  right : q.Reachable
  mem : ∀ j, j ∈ q.toList ↔ ∃ i ∈ p.toList, i.renumber f = j

variable {f : Order → Order} {p q : Program}

section Adding

variable {all : List Instruction} (hf : Renumbering f all)

include hf

theorem image_add {i : Instruction} {p' : Program} (h : Image f p q)
    (hall : ∀ j ∈ p.toList, j ∈ all) (hi : i ∈ all) (hp' : p.add i = .ok p') :
    ∃ q', q.add (i.renumber f) = .ok q' ∧ Image f p' q' := by
  obtain ⟨-, hfree, hgap, hlabel⟩ := (exists_add_iff h.left).mp ⟨p', hp'⟩
  have hadd : ∃ q', q.add (i.renumber f) = .ok q' := by
    refine (exists_add_iff h.right).mpr ⟨hf.positive i hi, ?_, hgap, fun hop => ?_⟩
    · intro j hj heq
      obtain ⟨k, hk, rfl⟩ := (h.mem j).mp hj
      exact hfree k hk (hf.order_eq (hall k hk) hi heq)
    · obtain ⟨name, hname, hnew⟩ := hlabel hop
      refine ⟨name, hname, fun j hj hj' => ?_⟩
      obtain ⟨k, hk, rfl⟩ := (h.mem j).mp hj
      exact hnew k hk hj'
  obtain ⟨q', hq'⟩ := hadd
  refine ⟨q', hq', .add h.left hp', .add h.right hq', fun j => ?_⟩
  rw [mem_toList_add hq', h.mem]
  constructor
  · rintro (rfl | ⟨k, hk, rfl⟩)
    · exact ⟨i, (mem_toList_add hp').mpr (.inl rfl), rfl⟩
    · exact ⟨k, (mem_toList_add hp').mpr (.inr hk), rfl⟩
  · rintro ⟨k, hk, rfl⟩
    rcases (mem_toList_add hp').mp hk with rfl | hk
    · exact .inl rfl
    · exact .inr ⟨k, hk, rfl⟩

theorem image_addAll {is : List Instruction} {p' : Program} (h : Image f p q)
    (hall : ∀ j ∈ p.toList, j ∈ all) (his : ∀ i ∈ is, i ∈ all) (hp' : p.addAll is = .ok p') :
    ∃ q', q.addAll (is.map (Instruction.renumber f)) = .ok q' ∧ Image f p' q' ∧
      ∀ j ∈ p'.toList, j ∈ all := by
  induction is generalizing p q with
  | nil =>
    obtain rfl : p = p' := Except.ok.inj hp'
    exact ⟨q, rfl, h, hall⟩
  | cons i is ih =>
    obtain ⟨r, hr, hp'⟩ := bind_eq_ok.mp hp'
    have hi := his i (by simp)
    obtain ⟨q₁, hq₁, himage⟩ := image_add hf h hall hi hr
    have hall' : ∀ j ∈ r.toList, j ∈ all := by
      intro j hj
      rcases (mem_toList_add hr).mp hj with rfl | hj
      · exact hi
      · exact hall j hj
    obtain ⟨q', hq', hrest⟩ := ih himage hall' (fun k hk => his k (by simp [hk])) hp'
    refine ⟨q', ?_, hrest⟩
    rw [List.map_cons, addAll, List.foldlM_cons, hq₁]
    exact hq'

end Adding

theorem image_ofInstructions {is : List Instruction} (hf : Renumbering f is)
    (hp : ofInstructions is = .ok p) :
    ∃ q, ofInstructions (is.map (Instruction.renumber f)) = .ok q ∧ Image f p q ∧
      Renumbering f p.toList := by
  have hempty : Image f .empty .empty := ⟨.empty, .empty, by simp⟩
  obtain ⟨q, hq, himage, hmem⟩ := image_addAll hf hempty (by simp) (fun i hi => hi) hp
  refine ⟨q, hq, himage, hf.zero, fun i hi => hf.positive i (hmem i hi), ?_⟩
  exact fun i hi j hj => hf.increasing i (hmem i hi) j (hmem j hj)

namespace Image

variable (h : Image f p q) (hf : Renumbering f p.toList)

include h hf

theorem lt_iff {place : Order} {i : Instruction} (hplace : p.IsPlace place) (hi : i ∈ p.toList) :
    f place < f i.order ↔ place < i.order := by
  rcases hplace with rfl | ⟨j, hj, rfl⟩
  · rw [hf.zero]
    exact ⟨fun _ => order_pos h.left hi, fun _ => hf.positive i hi⟩
  · refine ⟨fun hlt => ?_, hf.increasing j hj i hi⟩
    rcases Std.lt_trichotomy j.order i.order with hji | heq | hij
    · exact hji
    · exact absurd (congrArg f heq) (Std.ne_of_lt hlt)
    · exact absurd (Std.lt_trans hlt (hf.increasing i hi j hj hij)) Std.lt_irrefl

theorem after?_eq_some {place : Order} {i : Instruction} (hplace : p.IsPlace place)
    (hi : p.after? place = some i) : q.after? (f place) = some (i.renumber f) := by
  rw [after?_eq_some_iff (reachable_wellFormed h.left)] at hi
  rw [after?_eq_some_iff (reachable_wellFormed h.right)]
  refine ⟨(h.mem _).mpr ⟨i, hi.stored, rfl⟩, (h.lt_iff hf hplace hi.stored).mpr hi.above, ?_⟩
  intro j hj hlt
  obtain ⟨k, hk, rfl⟩ := (h.mem j).mp hj
  have hle := hi.least k hk ((h.lt_iff hf hplace hk).mp hlt)
  refine Std.not_lt.mp fun hgt => Std.not_lt.mpr hle ?_
  exact (h.lt_iff hf (.inr ⟨k, hk, rfl⟩) hi.stored).mp hgt

theorem after?_eq_none {place : Order} (hplace : p.IsPlace place) (hi : p.after? place = none) :
    q.after? (f place) = none := by
  rw [after?_eq_none_iff (reachable_wellFormed h.left)] at hi
  rw [after?_eq_none_iff (reachable_wellFormed h.right)]
  intro j hj
  obtain ⟨k, hk, rfl⟩ := (h.mem j).mp hj
  refine Std.not_lt.mp fun hlt => ?_
  exact Std.not_lt.mpr (hi k hk) ((h.lt_iff hf hplace hk).mp hlt)

end Image

end Program

namespace Machine

open Exec

def Failure.renumber (f : Order → Order) (e : Failure) : Failure := ⟨f e.order, e.fault⟩

/-- The state of a run of the renumbered program; diagnostics may differ, for they tell places. -/
structure Renumbered (f : Order → Order) (s t : State) : Prop where
  frames : t.frames = s.frames
  data : t.data = s.data
  input : t.input = s.input
  output : t.output = s.output
  executed : t.executed = s.executed
  pc : t.pc = f s.pc
  calls : t.calls = s.calls.map f

def ImagePlace (f : Order → Order) (p : Program) (a b : Order) : Prop := p.IsPlace a ∧ f a = b

theorem Corresponds.renumbered {f : Order → Order} {p : Program} {s t : State}
    (h : Corresponds (ImagePlace f p) Eq s t) : Renumbered f s t where
  frames := h.frames.symm
  data := h.data.symm
  input := h.input.symm
  output := h.output.symm
  executed := h.executed.symm
  pc := h.pc.2.symm
  calls := by
    have hcalls : List.Forall₂ (fun a b => f a = b) s.calls t.calls := h.calls.imp fun _ _ h => h.2
    have hmap := List.forall₂_map_left_iff.mpr hcalls
    rw [List.forall₂_eq_eq_eq] at hmap
    exact hmap.symm

section Steps

variable {f : Order → Order} {p q : Program} (h : Program.Image f p q)

include h

theorem paired_target_renumbered (i : Instruction) :
    Paired (ImagePlace f p) (target p i 1) (target q i 1) := by
  apply paired_target
  · intro name a _ ha
    obtain ⟨j, hj, hname, rfl⟩ := (Program.resolve_eq_ok_iff h.left).mp ha
    refine ⟨f j.order, (Program.resolve_eq_ok_iff h.right).mpr ?_, .inr ⟨j, hj, rfl⟩, rfl⟩
    exact ⟨j.renumber f, (h.mem _).mpr ⟨j, hj, rfl⟩, hname, rfl⟩
  · intro name b _ hb
    obtain ⟨j, hj, hname, rfl⟩ := (Program.resolve_eq_ok_iff h.right).mp hb
    obtain ⟨k, hk, rfl⟩ := (h.mem j).mp hj
    exact ⟨k.order, (Program.resolve_eq_ok_iff h.left).mpr ⟨k, hk, hname, rfl⟩⟩

variable (hf : Renumbering f p.toList)

include hf

theorem step_renumbered {s t : State} (hst : Corresponds (ImagePlace f p) Eq s t) :
    (t.step q).1 = (s.step p).1.mapError (Failure.renumber f) ∧
      Corresponds (ImagePlace f p) Eq (s.step p).2 (t.step q).2 := by
  obtain ⟨hplace, hpc⟩ := hst.pc
  cases hi : p.after? s.pc with
  | none =>
    have hj := h.after?_eq_none hf hplace hi
    rw [hpc] at hj
    rw [State.step, State.step, hi, hj]
    exact ⟨rfl, hst⟩
  | some i =>
    have hj := h.after?_eq_some hf hplace hi
    rw [hpc] at hj
    have hstored := (Program.isNext_of_after? (Program.reachable_wellFormed h.left) hi).stored
    have hfetched : Corresponds (ImagePlace f p) Eq { s with pc := i.order }
        { t with pc := f i.order } := { hst with pc := ⟨.inr ⟨i, hstored, rfl⟩, rfl⟩ }
    obtain ⟨result, hs, ht, hnext⟩ :=
      step_corresponds hi hj (paired_target_renumbered h i) (by simp) hfetched
    refine ⟨?_, hnext⟩
    rw [hs, ht]
    cases result <;> rfl

theorem afterSteps_renumbered {s t : State} (hst : Corresponds (ImagePlace f p) Eq s t) (n : Nat) :
    Corresponds (ImagePlace f p) Eq (s.afterSteps p n) (t.afterSteps q n) := by
  induction n generalizing s t with
  | zero => exact hst
  | succ n ih => exact ih (step_renumbered h hf hst).2

end Steps

/-- A run depends on the orders of the instructions through their sequence only. -/
theorem renumbered_run {is : List Instruction} {p : Program} {f : Order → Order}
    (hp : Program.ofInstructions is = .ok p) (hf : Renumbering f is) :
    ∃ q, Program.ofInstructions (is.map (Instruction.renumber f)) = .ok q ∧
      ∀ (input : Input) (output diagnostics : Gate), output.Willing → diagnostics.Willing →
        ∀ n : Nat,
          let s := (State.fresh input output diagnostics).afterSteps p n
          let t := (State.fresh input output diagnostics).afterSteps q n
          Renumbered f s t ∧ (t.step q).1 = (s.step p).1.mapError (Failure.renumber f) := by
  obtain ⟨q, hq, himage, hf'⟩ := Program.image_ofInstructions hf hp
  refine ⟨q, hq, ?_⟩
  intro input output diagnostics houtput hdiagnostics n s t
  have hfresh : Corresponds (ImagePlace f p) Eq (State.fresh input output diagnostics)
      (State.fresh input output diagnostics) :=
    ⟨rfl, rfl, .nil, ⟨.inl rfl, hf.zero⟩, rfl, rfl, rfl, houtput, hdiagnostics, hdiagnostics⟩
  have hst : Corresponds (ImagePlace f p) Eq s t := afterSteps_renumbered himage hf' hfresh n
  exact ⟨hst.renumbered, (step_renumbered himage hf' hst).1⟩

/-- A call, its return and a return too many, with ten times the orders. -/
theorem renumbered_call_and_returns :
    let is : List Instruction := [
      { order := 2, opcode := .call, arg1 := some (.label "f") },
      { order := 3, opcode := .returnBack },
      { order := 10, opcode := .label, arg1 := some (.label "f") },
      { order := 11, opcode := .returnBack }]
    let f : Order → Order := fun order => 10 * order
    let s : State := .fresh {} {} {}
    Renumbering f is ∧ ∃ q, Program.ofInstructions (is.map (Instruction.renumber f)) = .ok q ∧
      (s.afterSteps q 1).pc = 100 ∧ (s.afterSteps q 1).calls = [20] ∧
      ((s.afterSteps q 2).step q).1 = .error ⟨30, .callStackEmpty⟩ := by
  intro is f s
  have hf : Renumbering f is := ⟨by decide, by decide, by decide⟩
  obtain ⟨q, hq, hrun⟩ := renumbered_run (show Program.ofInstructions is = .ok _ from rfl) hf
  have hrun := hrun {} {} {} Gate.willing_default Gate.willing_default
  exact ⟨hf, q, hq, (hrun 1).1.pc, (hrun 1).1.calls, (hrun 2).2⟩

end Machine

end ThreeAddress
