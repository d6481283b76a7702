import CnfSolver.Walk.Work

/-!
# Pulls and traces

A pull takes a walk to its next model or to its end. A walk's trace is what all its pulls find.
-/

namespace CnfSolver

namespace Walk

def pull (w : Walk) : Answer × Walk :=
  match _h : w.step with
  | (some answer, w') => (answer, w')
  | (none, w') => w'.pull
termination_by w.work
decreasing_by exact work_lt_of_step _h

theorem pull_of_stop {w w' : Walk} {answer : Answer} (h : w.step = (some answer, w')) :
    w.pull = (answer, w') := by
  rw [pull]
  split
  · next h' => rw [h] at h'; cases h'; rfl
  · next h' => rw [h] at h'; cases h'

theorem pull_of_step {w w' : Walk} (h : w.step = (none, w')) : w.pull = w'.pull := by
  rw [pull]
  split
  · next h' => rw [h] at h'; cases h'
  · next h' => rw [h] at h'; cases h'; rfl

theorem work_lt_of_pull_model {w w' : Walk} (h : w.pull = (.model, w')) : w'.work < w.work := by
  fun_induction pull w with
  | case1 w answer w₁ hstep =>
      obtain ⟨rfl, rfl⟩ := Prod.mk.inj h
      exact work_lt_of_step_model hstep
  | case2 w w₁ hstep ih => exact Nat.lt_trans (ih h) (work_lt_of_step hstep)

end Walk

/-- All that a walk comes to: the conflicts so far and the board at each model, and how it ends. -/
structure Trace where
  models : List (Nat × Board)
  answer : Answer
  conflicts : Nat
  board : Board
  deriving DecidableEq, Repr

def Walk.trace (w : Walk) : Trace :=
  match _h : w.pull with
  | (.model, w') =>
      let rest := w'.trace
      { rest with models := (w'.conflicts, w'.board) :: rest.models }
  | (answer, w') => ⟨[], answer, w'.conflicts, w'.board⟩
termination_by w.work
decreasing_by exact Walk.work_lt_of_pull_model _h

theorem Walk.trace_of_model {w w' : Walk} (h : w.pull = (.model, w')) :
    w.trace = { w'.trace with models := (w'.conflicts, w'.board) :: w'.trace.models } := by
  rw [Walk.trace]
  split
  · next h' => rw [h] at h'; cases h'; rfl
  · next hne h' => rw [h] at h'; cases h'; exact absurd rfl hne

theorem Walk.trace_of_end {w w' : Walk} {answer : Answer} (h : w.pull = (answer, w'))
    (hne : answer ≠ .model) : w.trace = ⟨[], answer, w'.conflicts, w'.board⟩ := by
  rw [Walk.trace]
  split
  · next h' => rw [h] at h'; cases h'; exact absurd rfl hne
  · next h' => rw [h] at h'; cases h'; rfl

def Walk.models (w : Walk) : List Assignment := w.trace.models.map (·.2.assignment)

end CnfSolver
