import CnfSolver.Walk

/-!
# The work of a walk

A bound on the steps that a walk has left, whatever its watch list holds. It falls with every step,
those that stop at a model included, so every pull ends and so does every walk.
-/

namespace CnfSolver.Walk

/-- The steps that a whole branch with `room` variables left to decide can take. -/
def branchWork : Nat → Nat
  | 0 => 2
  | room + 1 => 2 * branchWork room + 4

def phaseWork (room : Nat) : Phase → Nat
  | .trying false => branchWork room
  | .trying true => branchWork (room - 1) + 3
  | .clearing => 2
  | .leaving => 1
  | .over => 0

/-- The steps left at the levels above `level`, if `bound` is the first level without a variable. -/
def trailWork (bound : Nat) (level : Int) : List Bool → Nat
  | [] => 0
  | value :: trail =>
      phaseWork (bound - (level - 1)).toNat (.after value) + trailWork bound (level - 1) trail

def work (w : Walk) : Nat :=
  phaseWork (w.board.assignment.length - w.level).toNat w.phase +
    trailWork w.board.assignment.length w.level w.trail

theorem two_le_branchWork (room : Nat) : 2 ≤ branchWork room := by
  induction room with
  | zero => exact Nat.le_refl 2
  | succ room ih => simp only [branchWork]; omega

/-- A step that does not stop the walk brings it closer to its end. -/
theorem work_lt_of_step {w w' : Walk} (h : w.step = (none, w')) : w'.work < w.work := by
  unfold step at h
  split at h
  · next value hphase =>
    split at h
    · simp at h
    · split at h
      · next board hd =>
        obtain rfl := (Prod.mk.inj h).2
        have hlen : board.assignment.length = w.board.assignment.length := by
          have := Board.length_decide w.board w.level value
          rwa [hd] at this
        have hlt : w.level < w.board.assignment.length :=
          Board.lt_length_of_decide w.board w.level value (by rw [hd]; simp)
        obtain ⟨room, hroom⟩ :
            ∃ room, (w.board.assignment.length - w.level).toNat = room + 1 :=
          ⟨(w.board.assignment.length - w.level).toNat - 1, by omega⟩
        have hnext : (w.board.assignment.length - (w.level + 1)).toNat = room := by omega
        have hback : w.level + 1 - 1 = w.level := by omega
        simp only [work, trailWork, hphase, hlen, hnext, hroom, hback]
        cases value <;>
          simp only [Phase.after, phaseWork, branchWork, Bool.false_eq_true, if_true, if_false,
            Nat.add_sub_cancel] <;>
          omega
      · next board hd =>
        obtain rfl := (Prod.mk.inj h).2
        have hlen : board.assignment.length = w.board.assignment.length := by
          have := Board.length_decide w.board w.level value
          rwa [hd] at this
        have hlt : w.level < w.board.assignment.length :=
          Board.lt_length_of_decide w.board w.level value (by rw [hd]; simp)
        obtain ⟨room, hroom⟩ :
            ∃ room, (w.board.assignment.length - w.level).toNat = room + 1 :=
          ⟨(w.board.assignment.length - w.level).toNat - 1, by omega⟩
        have := two_le_branchWork room
        simp only [work, hphase, hlen, hroom]
        cases value <;>
          simp only [Phase.after, phaseWork, branchWork, Bool.false_eq_true, if_true, if_false,
            Nat.add_sub_cancel] <;>
          omega
      · simp at h
  · next hphase =>
    obtain rfl := (Prod.mk.inj h).2
    simp only [work, hphase, phaseWork, Board.length_unassign]
    omega
  · next hphase =>
    split at h
    · simp at h
    · next value trail htrail =>
      obtain rfl := (Prod.mk.inj h).2
      simp only [work, hphase, htrail, phaseWork, trailWork]
      omega
  · simp at h

theorem work_lt_of_step_model {w w' : Walk} (h : w.step = (some .model, w')) :
    w'.work < w.work := by
  unfold step at h
  split at h
  · next value hphase =>
    split at h
    · obtain rfl := (Prod.mk.inj h).2
      have := two_le_branchWork (w.board.assignment.length - w.level).toNat
      simp only [work, hphase]
      cases value <;> simp only [phaseWork] <;> omega
    · split at h <;> simp at h
  · simp at h
  · split at h <;> simp at h
  · simp at h

end CnfSolver.Walk
