import ChipMachine.Proofs.Run
import Mathlib.Data.List.Forall2

namespace ChipMachine

/-- The same was reported and answered, and the machines are related. -/
structure Outcome.Matches {α : Type} (R : Machine → Machine → Prop) (o o' : Outcome α) : Prop where
  machine : R o.machine o'.machine
  events : o.events = o'.events
  answer : o.answer = o'.answer

namespace Machine

section
variable {R C : Machine → Machine → Prop} {m m' : Machine}

/-- Steps that match where `C` holds make batches that match as long as it does. -/
theorem batch_matches_while (hstep : ∀ m m', R m m' → C m m' → m.step.Matches R m'.step)
    (n : Nat) (h : R m m')
    (hwhile : ∀ p ∈ (batchInstants n m).zip (batchInstants n m'), C p.1 p.2)
    (past : List Event) : (batch n m past).Matches R (batch n m' past) := by
  induction n generalizing m m' past with
  | zero => exact ⟨h, rfl, rfl⟩
  | succ n ih =>
    simp only [batchInstants, List.zip_cons_cons] at hwhile
    obtain ⟨hnow, hlater⟩ := List.forall_mem_cons.mp hwhile
    have hs := hstep m m' h hnow
    rw [← hs.answer] at hlater
    simp only [batch, ← hs.events, ← hs.answer]
    split
    · rename_i ha
      rw [ha] at hlater
      exact ih hs.machine hlater _
    · exact ⟨hs.machine, rfl, rfl⟩

theorem batchInstants_matches_while
    (hstep : ∀ m m', R m m' → C m m' → m.step.Matches R m'.step) (n : Nat) (h : R m m')
    (hwhile : ∀ p ∈ (batchInstants n m).zip (batchInstants n m'), C p.1 p.2) :
    List.Forall₂ R (batchInstants n m) (batchInstants n m') := by
  induction n generalizing m m' with
  | zero => exact .nil
  | succ n ih =>
    simp only [batchInstants, List.zip_cons_cons] at hwhile
    obtain ⟨hnow, hlater⟩ := List.forall_mem_cons.mp hwhile
    have hs := hstep m m' h hnow
    rw [← hs.answer] at hlater
    simp only [batchInstants, ← hs.answer]
    refine .cons h ?_
    split
    · rename_i ha
      rw [ha] at hlater
      exact ih hs.machine hlater
    · exact .nil

theorem batch_matches (hstep : ∀ m m', R m m' → m.step.Matches R m'.step) (n : Nat) (h : R m m')
    (past : List Event) : (batch n m past).Matches R (batch n m' past) :=
  batch_matches_while (C := fun _ _ => True) (fun m m' h _ => hstep m m' h) n h
    (fun _ _ => trivial) past

theorem batchInstants_matches (hstep : ∀ m m', R m m' → m.step.Matches R m'.step) (n : Nat)
    (h : R m m') : List.Forall₂ R (batchInstants n m) (batchInstants n m') :=
  batchInstants_matches_while (C := fun _ _ => True) (fun m m' h _ => hstep m m' h) n h
    fun _ _ => trivial

/-- Operations that match make runs that match. -/
theorem run_matches (happly : ∀ m m' op, R m m' → (m.apply op).Matches R (m'.apply op))
    (ops : List Operation) (h : R m m') : (m.run ops).Matches R (m'.run ops) := by
  induction ops generalizing m m' with
  | nil => exact ⟨h, rfl, rfl⟩
  | cons op ops ih =>
    have hf := happly m m' op h
    have hr := ih hf.machine
    rw [run_cons, run_cons]
    exact ⟨hr.machine, by rw [hf.events, hr.events], by rw [hf.answer, hr.answer]⟩

/-- Where operations and steps match, runs go through related machines. -/
theorem runInstants_matches (happly : ∀ m m' op, R m m' → (m.apply op).Matches R (m'.apply op))
    (hinstants : ∀ m m' op, R m m' → List.Forall₂ R (m.instants op) (m'.instants op))
    (ops : List Operation) (h : R m m') :
    List.Forall₂ R (m.runInstants ops) (m'.runInstants ops) := by
  induction ops generalizing m m' with
  | nil => exact .nil
  | cons op ops ih =>
    exact List.rel_append (hinstants m m' op h) (ih (happly m m' op h).machine)

end

end Machine
end ChipMachine
