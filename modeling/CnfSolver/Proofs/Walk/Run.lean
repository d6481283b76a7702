import CnfSolver.Walk.Pull

/-!
# Runs of a walk

The walks that come up one after the other when a walk is pulled again and again, and what a single
step can do, whatever the board holds.
-/

namespace CnfSolver.Walk

/-- `w` comes up in the run that starts at `w₀`. A run goes on after each model, and stays where it
is once it has ended. -/
inductive Reaches (w₀ : Walk) : Walk → Prop
  | refl : Reaches w₀ w₀
  | step {w : Walk} (h : Reaches w₀ w) : Reaches w₀ w.step.2

def afterPulls (w : Walk) : Nat → Walk
  | 0 => w
  | k + 1 => (w.afterPulls k).pull.2

def decision? (w : Walk) : Option (Verdict × Board) :=
  match w.phase with
  | .trying value => if w.level = w.count then none else some (w.board.decide w.level value)
  | _ => none

theorem decision?_eq_some {w : Walk} {d : Verdict × Board} :
    w.decision? = some d ↔
      ∃ value, w.phase = .trying value ∧ w.level ≠ w.count ∧ w.board.decide w.level value = d := by
  unfold decision?
  split
  · next value hphase =>
    split <;> next hlevel => simp [hphase, hlevel]
  · next hne =>
    constructor
    · exact fun h => nomatch h
    · rintro ⟨value, hphase, -⟩
      exact absurd hphase (hne value)

inductive Steps (w : Walk) : Option Answer → Walk → Prop
  | model {value : Bool} (hphase : w.phase = .trying value) (hlevel : w.level = w.count) :
      Steps w (some .model) { w with phase := .leaving }
  | moved {value : Bool} {board : Board} (hphase : w.phase = .trying value)
      (hlevel : w.level ≠ w.count) (hdecide : w.board.decide w.level value = (.moved, board)) :
      Steps w none { w with
        level := w.level + 1, phase := .trying false, trail := value :: w.trail, board }
  | conflict {value : Bool} {board : Board} (hphase : w.phase = .trying value)
      (hlevel : w.level ≠ w.count) (hdecide : w.board.decide w.level value = (.conflict, board)) :
      Steps w none { w with phase := .after value, conflicts := w.conflicts + 1, board }
  | outOfRange {value : Bool} {board : Board} (hphase : w.phase = .trying value)
      (hlevel : w.level ≠ w.count)
      (hdecide : w.board.decide w.level value = (.outOfRange, board)) :
      Steps w (some .outOfRange) { w with phase := .over, board }
  | clear (hphase : w.phase = .clearing) :
      Steps w none { w with phase := .leaving, board := w.board.unassign w.level }
  | exhausted (hphase : w.phase = .leaving) (htrail : w.trail = []) :
      Steps w (some .exhausted) { w with phase := .over }
  | back {value : Bool} {trail : List Bool} (hphase : w.phase = .leaving)
      (htrail : w.trail = value :: trail) :
      Steps w none { w with level := w.level - 1, phase := .after value, trail }
  | ended (hphase : w.phase = .over) : Steps w (some .over) w

theorem steps_step (w : Walk) : w.Steps w.step.1 w.step.2 := by
  cases hphase : w.phase with
  | trying value =>
      by_cases hlevel : w.level = w.count
      · simp only [step, hphase, if_pos hlevel]
        exact .model hphase hlevel
      · cases hdecide : w.board.decide w.level value with
        | mk verdict board =>
            cases verdict <;> simp only [step, hphase, if_neg hlevel, hdecide]
            · exact .moved hphase hlevel hdecide
            · exact .conflict hphase hlevel hdecide
            · exact .outOfRange hphase hlevel hdecide
  | clearing =>
      simp only [step, hphase]
      exact .clear hphase
  | leaving =>
      cases htrail : w.trail with
      | nil =>
          have hstep : w.step = (some .exhausted, { w with phase := .over }) := by
            simp only [step, hphase, htrail]
          rw [hstep]
          exact .exhausted hphase htrail
      | cons value trail =>
          have hstep : w.step =
              (none, { w with level := w.level - 1, phase := .after value, trail }) := by
            simp only [step, hphase, htrail]
          rw [hstep]
          exact .back hphase htrail
  | _ =>
      simp only [step, hphase]
      exact .ended hphase

variable {w₀ w : Walk}

theorem step_of_over (hphase : w.phase = .over) : w.step = (some .over, w) := by
  simp only [step, hphase]

/-- A step that stops the walk anywhere but at a model ends it. -/
theorem phase_of_stop {w' : Walk} {answer : Answer} (h : w.step = (some answer, w'))
    (hne : answer ≠ .model) : w'.phase = .over := by
  have hsteps := steps_step w
  rw [h] at hsteps
  cases hsteps with
  | model => exact absurd rfl hne
  | outOfRange => rfl
  | exhausted => rfl
  | ended hphase => exact hphase

theorem phase_of_pull {w' : Walk} {answer : Answer} (h : w.pull = (answer, w'))
    (hne : answer ≠ .model) : w'.phase = .over := by
  fun_induction Walk.pull w with
  | case1 w answer' w₁ hstep =>
      obtain ⟨rfl, rfl⟩ := Prod.mk.inj h
      exact phase_of_stop hstep hne
  | case2 w w₁ hstep ih => exact ih h

theorem Reaches.pull (h : Reaches w₀ w) : Reaches w₀ w.pull.2 := by
  fun_induction Walk.pull w with
  | case1 w answer w' hstep =>
      have hnext := h.step
      rwa [hstep] at hnext
  | case2 w w' hstep ih =>
      have hnext := h.step
      rw [hstep] at hnext
      exact ih hnext

theorem afterPulls_succ (w : Walk) (k : Nat) : w.afterPulls (k + 1) = w.pull.2.afterPulls k := by
  induction k with
  | zero => rfl
  | succ k ih => exact congrArg (fun w => w.pull.2) ih

theorem reaches_afterPulls (w : Walk) (k : Nat) : Reaches w (w.afterPulls k) := by
  induction k with
  | zero => exact .refl
  | succ k ih => exact ih.pull

theorem exists_step_eq_pull (h : Reaches w₀ w) :
    ∃ w₁, Reaches w₀ w₁ ∧ w₁.step = (some w.pull.1, w.pull.2) := by
  fun_induction Walk.pull w with
  | case1 w answer w' hstep => exact ⟨w, h, hstep⟩
  | case2 w w' hstep ih =>
      have hnext := h.step
      rw [hstep] at hnext
      exact ih hnext

end CnfSolver.Walk
