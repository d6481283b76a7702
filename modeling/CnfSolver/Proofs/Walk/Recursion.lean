import CnfSolver.Walk.Descent

/-!
# The walk is the recursion

A walk keeps what is still to be done in its trail, and the recursion keeps it in its calls. They
have the same trace, whatever the watch list and the assignment hold, errors included. The induction
is on the variables that are left, and holds for every trail: going through a branch takes the walk
to the point where it leaves the branch, with the same trail.
-/

namespace CnfSolver

namespace Trace

theorem andThen_assoc (t : Trace) (f g : Nat → Board → Trace) :
    (t.andThen f).andThen g = t.andThen fun conflicts b => (f conflicts b).andThen g := by
  obtain ⟨models, answer, conflicts, b⟩ := t
  cases answer with
  | exhausted =>
      simp only [andThen]
      split <;> simp [List.append_assoc, *]
  | _ => rfl

theorem andThen_passing (t : Trace) : t.andThen passing = t := by
  obtain ⟨models, answer, conflicts, b⟩ := t
  cases answer with
  | exhausted => simp only [andThen, passing, List.append_nil]
  | _ => rfl

end Trace

namespace Walk

theorem trace_of_step {w w' : Walk} (h : w.step = (none, w')) : w.trace = w'.trace := by
  have hpull := pull_of_step h
  cases hp : w'.pull with
  | mk answer w₂ =>
      rw [hp] at hpull
      by_cases hmodel : answer = .model
      · subst hmodel
        rw [trace_of_model hpull, trace_of_model hp]
      · rw [trace_of_end hpull hmodel, trace_of_end hp hmodel]

theorem trace_of_step_model {w w' : Walk} (h : w.step = (some .model, w')) :
    w.trace = { w'.trace with models := (w'.conflicts, w'.board) :: w'.trace.models } :=
  trace_of_model (pull_of_stop h)

theorem trace_of_stop {w w' : Walk} {answer : Answer} (h : w.step = (some answer, w'))
    (hne : answer ≠ .model) : w.trace = ⟨[], answer, w'.conflicts, w'.board⟩ :=
  trace_of_end (pull_of_stop h) hne

variable (w : Walk)

/-- Deciding a variable takes the walk through the branch below and back to the same level. -/
theorem trace_of_trying (value : Bool) (below : Nat → Board → Trace)
    (hphase : w.phase = .trying value) (hlevel : w.level ≠ w.count)
    (hbelow : ∀ conflicts board,
      Walk.trace { w with
        level := w.level + 1, phase := .trying false, trail := value :: w.trail,
        conflicts, board } =
      (below conflicts board).andThen fun conflicts board =>
        Walk.trace { w with
          level := w.level + 1, phase := .leaving, trail := value :: w.trail,
          conflicts, board }) :
    w.trace =
      (w.board.branch below w.level value w.conflicts).andThen fun conflicts board =>
        Walk.trace { w with phase := .after value, conflicts, board } := by
  have hback (conflicts : Nat) (board : Board) :
      Walk.trace { w with
        level := w.level + 1, phase := .leaving, trail := value :: w.trail,
        conflicts, board } =
      Walk.trace { w with phase := .after value, conflicts, board } := by
    apply trace_of_step
    simp only [step, Int.add_sub_cancel]
  cases hd : w.board.decide w.level value with
  | mk verdict board =>
      cases verdict with
      | moved =>
          have hstep : w.step = (none, { w with
              level := w.level + 1, phase := .trying false, trail := value :: w.trail,
              board }) := by
            simp only [step, hphase, if_neg hlevel, hd]
          rw [trace_of_step hstep, Board.branch, hd]
          rw [hbelow w.conflicts board]
          simp only [hback]
      | conflict =>
          have hstep : w.step = (none, { w with
              phase := .after value, conflicts := w.conflicts + 1, board }) := by
            simp only [step, hphase, if_neg hlevel, hd]
          rw [trace_of_step hstep, Board.branch, hd]
          rfl
      | outOfRange =>
          have hstep : w.step = (some .outOfRange, { w with phase := .over, board }) := by
            simp only [step, hphase, if_neg hlevel, hd]
          rw [trace_of_stop hstep (by simp), Board.branch, hd]
          rfl

theorem trace_of_clearing (hphase : w.phase = .clearing) :
    w.trace = Walk.trace { w with phase := .leaving, board := w.board.unassign w.level } := by
  apply trace_of_step
  simp only [step, hphase]

/-- With `room` variables left, a walk does what the recursion does and then leaves its level. -/
theorem trace_of_trying_false (room : Nat) (hphase : w.phase = .trying false)
    (hlevel : w.level + room = w.count) :
    w.trace =
      (w.board.descend w.count room w.conflicts).andThen fun conflicts board =>
        Walk.trace { w with phase := .leaving, conflicts, board } := by
  induction room generalizing w with
  | zero =>
      have hend : w.level = w.count := by omega
      have hstep : w.step = (some .model, { w with phase := .leaving }) := by
        simp only [step, hphase, if_pos hend]
      rw [trace_of_step_model hstep]
      rfl
  | succ room ih =>
      have hne : w.level ≠ w.count := by omega
      have heq : (w.count : Int) - (room + 1) = w.level := by omega
      have hbranch (value : Bool) (w₁ : Walk) (hphase : w₁.phase = .trying value)
          (hsame : w₁.level = w.level) (hcount : w₁.count = w.count) :=
        w₁.trace_of_trying value (fun c b => b.descend w.count room c) hphase
          (by rw [hsame, hcount]; exact hne) (fun conflicts board => by
            have := ih { w₁ with
              level := w₁.level + 1, phase := .trying false, trail := value :: w₁.trail,
              conflicts, board } rfl (by simp only; omega)
            rw [this, hcount])
      rw [hbranch false w hphase rfl rfl, Board.descend, heq]
      rw [Trace.andThen_assoc, Trace.andThen_assoc]
      congr 1
      funext conflicts board
      rw [hbranch true { w with phase := .after false, conflicts, board } rfl rfl rfl]
      congr 1
      funext conflicts board
      rw [trace_of_clearing _ rfl]
      rfl

end Walk

theorem Walk.trace_start_eq_descend (n : Nat) (level : Int) (hlevel : level ≤ n) (b : Board) :
    (Walk.start n level b).trace = b.descend n (n - level).toNat 0 := by
  have hroom : (Walk.start n level b).level + ((n - level).toNat : Nat) =
      (Walk.start n level b).count := by
    simp only [Walk.start]
    omega
  have hleave (conflicts : Nat) (board : Board) :
      Walk.trace { Walk.start n level b with phase := .leaving, conflicts, board } =
        .passing conflicts board := by
    have hstep : Walk.step { Walk.start n level b with phase := .leaving, conflicts, board } =
        (some .exhausted, { Walk.start n level b with phase := .over, conflicts, board }) := rfl
    rw [trace_of_stop hstep (by simp)]
    rfl
  rw [trace_of_trying_false _ _ rfl hroom]
  simp only [hleave]
  exact Trace.andThen_passing _

end CnfSolver
