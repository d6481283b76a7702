import CnfSolver.Proofs.Walk.Recursion
import CnfSolver.Proofs.Walk.Run

/-!
# The decisions of a walk

All decisions that a walk makes until it ends, and their number. The walk goes through a binary tree
in which every decision is an edge and every model and every conflict a leaf. So the leaves that it
has come to and those that it still has to come to pay for its decisions: each step keeps the
account, and at the end no leaf is owed any more.
-/

namespace CnfSolver

namespace Walk

def decisions (w : Walk) : List (Verdict × Board) :=
  match _h : w.step with
  | (none, w') => w.decision?.toList ++ w'.decisions
  | (some .model, w') => w.decision?.toList ++ w'.decisions
  | (some _, _) => w.decision?.toList
termination_by w.work
decreasing_by
  · exact work_lt_of_step _h
  · exact work_lt_of_step_model _h

variable {w w' w₀ : Walk}

/-! ## Decisions along a run -/

theorem Reaches.of_step (h : Reaches w₀.step.2 w) : Reaches w₀ w := by
  induction h with
  | refl => exact .step .refl
  | step _ ih => exact ih.step

theorem Reaches.eq_or_reaches_step (h : Reaches w₀ w) : w = w₀ ∨ Reaches w₀.step.2 w := by
  induction h with
  | refl => exact .inl rfl
  | step _ ih =>
      rcases ih with rfl | ih
      · exact .inr .refl
      · exact .inr ih.step

theorem exists_reaches_iff (w₀ : Walk) (p : Walk → Prop) :
    (∃ w, Reaches w₀ w ∧ p w) ↔ p w₀ ∨ ∃ w, Reaches w₀.step.2 w ∧ p w := by
  constructor
  · rintro ⟨w, hw, hp⟩
    rcases hw.eq_or_reaches_step with rfl | hw
    · exact .inl hp
    · exact .inr ⟨w, hw, hp⟩
  · rintro (hp | ⟨w, hw, hp⟩)
    · exact ⟨w₀, .refl, hp⟩
    · exact ⟨w, hw.of_step, hp⟩

theorem Reaches.phase_of_over (h : Reaches w₀ w) (hphase : w₀.phase = .over) :
    w.phase = .over := by
  induction h with
  | refl => exact hphase
  | step _ ih => rwa [step_of_over ih]

theorem mem_decisions {d : Verdict × Board} :
    d ∈ w₀.decisions ↔ ∃ w, Reaches w₀ w ∧ w.decision? = some d := by
  fun_induction decisions w₀ with
  | case1 w₀ w' hstep ih =>
      rw [List.mem_append, Option.mem_toList, ih, exists_reaches_iff w₀, hstep]
  | case2 w₀ w' hstep ih =>
      rw [List.mem_append, Option.mem_toList, ih, exists_reaches_iff w₀, hstep]
  | case3 w₀ answer w' hne hstep =>
      have hnone : ¬∃ w, Reaches w' w ∧ w.decision? = some d := by
        rintro ⟨w, hw, hdecision⟩
        have hover := hw.phase_of_over (phase_of_stop hstep hne)
        simp [decision?, hover] at hdecision
      rw [Option.mem_toList, exists_reaches_iff w₀, hstep]
      exact (or_iff_left hnone).symm

end Walk

/-! ## The account of a walk -/

def Phase.owed : Phase → Nat
  -- twice the leaves of a subtree are two more than its edges
  | .trying false => 2
  -- and one more edge leads to the subtree of the second value
  | .trying true => 1
  | _ => 0

namespace Walk

/-- The leaves, counted twice, that a walk owes, less the decisions that come to them. Each level
above whose variable is zero owes the branch in which it is one. -/
def owed (w : Walk) : Nat := w.phase.owed + w.trail.count false

/-- The walk has not gone beyond its last variable, and tries a second value only for a variable. -/
structure IsWithin (w : Walk) : Prop where
  level_le : w.level ≤ w.count
  level_lt : w.phase = .trying true → w.level < w.count

variable {w w' : Walk}

theorem isWithin_start {n : Nat} {level : Int} (h : level ≤ n) (b : Board) :
    (Walk.start n level b).IsWithin where
  level_le := h
  level_lt hphase := nomatch hphase

/-- A model and a conflict pay two, a decision costs one. -/
theorem IsWithin.step (hw : w.IsWithin) (h : w.step.1 ≠ some .outOfRange) :
    w.step.2.IsWithin ∧
      2 * w.step.2.conflicts + w.step.2.owed + (if w.step.1 = some .model then 2 else 0) =
        2 * w.conflicts + w.owed + w.decision?.toList.length := by
  have hsteps := steps_step w
  generalize w.step.1 = answer, w.step.2 = w' at hsteps h ⊢
  cases hsteps with
  | @model value hphase hlevel =>
      -- a second value is tried below the last variable only
      have hfalse : value = false := by
        cases value with
        | false => rfl
        | true =>
            have := hw.level_lt hphase
            omega
      refine ⟨⟨hw.level_le, by simp⟩, ?_⟩
      simp [owed, Phase.owed, decision?, hphase, hlevel, hfalse]
      omega
  | @moved value board hphase hlevel hdecide =>
      have hle := hw.level_le
      refine ⟨⟨by simp only; omega, by simp⟩, ?_⟩
      cases value <;> simp [owed, Phase.owed, decision?, hphase, hlevel] <;> omega
  | @conflict value board hphase hlevel hdecide =>
      have hle := hw.level_le
      refine ⟨⟨hle, fun _ => by simp only; omega⟩, ?_⟩
      cases value <;> simp [owed, Phase.owed, Phase.after, decision?, hphase, hlevel] <;> omega
  | outOfRange => exact absurd rfl h
  | clear hphase =>
      refine ⟨⟨hw.level_le, by simp⟩, ?_⟩
      simp [owed, Phase.owed, decision?, hphase]
  | exhausted hphase htrail =>
      refine ⟨⟨hw.level_le, by simp⟩, ?_⟩
      simp [owed, Phase.owed, decision?, hphase]
  | @back value trail hphase htrail =>
      have hle := hw.level_le
      refine ⟨⟨by simp only; omega, fun _ => by simp only; omega⟩, ?_⟩
      cases value <;> simp [owed, Phase.owed, Phase.after, decision?, hphase, htrail]
      omega
  | ended hphase =>
      refine ⟨hw, ?_⟩
      simp [decision?, hphase]

theorem owed_of_exhausted (h : w.step = (some .exhausted, w')) : w'.owed = 0 := by
  have hsteps := steps_step w
  rw [h] at hsteps
  cases hsteps with
  | exhausted hphase htrail => simp [owed, Phase.owed, htrail]

/-- A walk that ends without an error comes to its models and conflicts by its decisions, and no
leaf is left. -/
theorem IsWithin.account (hw : w.IsWithin) (hend : w.trace.answer = .exhausted) :
    2 * (w.trace.models.length + w.trace.conflicts) =
      2 * w.conflicts + w.owed + w.decisions.length := by
  fun_induction decisions w with
  | case1 w w' hstep ih =>
      obtain ⟨hw', haccount⟩ := hw.step (by rw [hstep]; simp)
      rw [hstep] at hw' haccount
      rw [trace_of_step hstep] at hend ⊢
      have := ih hw' hend
      simp only [reduceCtorEq, if_false] at haccount
      rw [List.length_append]
      omega
  | case2 w w' hstep ih =>
      obtain ⟨hw', haccount⟩ := hw.step (by rw [hstep]; simp)
      rw [hstep] at hw' haccount
      rw [trace_of_step_model hstep] at hend ⊢
      have := ih hw' hend
      simp only [if_true] at haccount
      simp only [List.length_append, List.length_cons]
      omega
  | case3 w answer w' hne hstep =>
      rw [trace_of_stop hstep hne] at hend ⊢
      simp only at hend
      subst hend
      have howed := owed_of_exhausted hstep
      obtain ⟨-, haccount⟩ := hw.step (by rw [hstep]; simp)
      rw [hstep] at haccount
      simp only [Option.some.injEq, reduceCtorEq, if_false] at haccount
      simp only [List.length_nil]
      omega

end Walk

end CnfSolver
