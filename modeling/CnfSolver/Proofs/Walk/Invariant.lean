import CnfSolver.Proofs.Walk.Enumeration
import CnfSolver.Proofs.Walk.Run
import CnfSolver.Search

/-!
# The watch invariant along a run

Between decisions the board of a walk is in order for the values on its trail. A decision that
fails, and the way back from a branch, leave a value at the current variable; the board is in order
again once that variable is open, which is all that the next decision asks for.
-/

namespace CnfSolver.Walk

open Assignment (ofValues)

/-- The walk started with `base` decided and its board is in order for `base` and its trail, up to
the entry of the current variable. That entry is open too unless the walk is about to try the second
value or to open the variable. -/
structure IsSound (n : Nat) (cs : List Clause) (base : List Bool) (w : Walk) : Prop where
  count_eq : w.count = n
  level_eq : w.level = (base ++ w.trail.reverse).length
  length_le : (base ++ w.trail.reverse).length ≤ n
  valid : (w.board.unassign w.level).IsValid n cs (base ++ w.trail.reverse)
  settled : w.phase ≠ .trying true → w.phase ≠ .clearing →
    w.board.IsValid n cs (base ++ w.trail.reverse)

variable {n : Nat} {cs : List Clause} {base : List Bool} {w : Walk}

theorem isSound_start {b : Board} (hlen : base.length ≤ n) (hb : b.IsValid n cs base) :
    (Walk.start n base.length b).IsSound n cs base where
  count_eq := rfl
  level_eq := by simp [start]
  length_le := by simpa [start] using hlen
  valid := by simpa [start] using hb.unassign hlen
  settled _ _ := by simpa [start] using hb

namespace IsSound

theorem decide_cases (hw : w.IsSound n cs base) (hcs : ∀ c ∈ cs, c.WellFormed n) (value : Bool)
    (hlevel : w.level ≠ w.count) :
    (∃ b, w.board.decide w.level value = (.conflict, b) ∧
      b.assignment = ofValues n (base ++ w.trail.reverse ++ [value]) ∧
      (b.unassign w.level).IsValid n cs (base ++ w.trail.reverse) ∧
      ∃ c ∈ cs, c.AllFalse b.assignment) ∨
    ∃ b, w.board.decide w.level value = (.moved, b) ∧
      b.IsValid n cs (base ++ w.trail.reverse ++ [value]) := by
  have hlt : (base ++ w.trail.reverse).length < n := by
    have hne := hlevel
    have hle := hw.length_le
    rw [hw.level_eq, hw.count_eq] at hne
    omega
  have hvalid := hw.valid
  rw [hw.level_eq] at hvalid ⊢
  exact Board.decide_cases hcs hlt hvalid value

theorem isValid_of_moved (hw : w.IsSound n cs base) (hcs : ∀ c ∈ cs, c.WellFormed n)
    {value : Bool} {b : Board} (hlevel : w.level ≠ w.count)
    (hdecide : w.board.decide w.level value = (.moved, b)) :
    b.IsValid n cs (base ++ w.trail.reverse ++ [value]) := by
  rcases hw.decide_cases hcs value hlevel with ⟨b', heq, -⟩ | ⟨b', heq, hvalid⟩
  · rw [hdecide] at heq
    cases heq
  · rw [hdecide] at heq
    cases heq
    exact hvalid

theorem isValid_of_level_eq (hw : w.IsSound n cs base) (hlevel : w.level = w.count) :
    w.board.IsValid n cs (base ++ w.trail.reverse) := by
  by_cases hphase : w.phase = .trying true ∨ w.phase = .clearing
  · -- no variable is left, so there is no entry to open
    have hvalid := hw.valid
    have hlen := hvalid.length_eq hw.length_le
    rw [Board.length_unassign] at hlen
    rw [hlevel, hw.count_eq, Board.unassign_of_le (by omega)] at hvalid
    exact hvalid
  · exact hw.settled (fun h => hphase (.inl h)) (fun h => hphase (.inr h))

theorem moved (hw : w.IsSound n cs base) (hcs : ∀ c ∈ cs, c.WellFormed n) {value : Bool}
    {b : Board} (hlevel : w.level ≠ w.count)
    (hdecide : w.board.decide w.level value = (.moved, b)) :
    IsSound n cs base { w with
      level := w.level + 1, phase := .trying false, trail := value :: w.trail, board := b } := by
  have hvalid := hw.isValid_of_moved hcs hlevel hdecide
  have hvalues : base ++ (value :: w.trail).reverse = base ++ w.trail.reverse ++ [value] := by
    rw [List.reverse_cons, List.append_assoc]
  have hlength : (base ++ w.trail.reverse ++ [value]).length =
      (base ++ w.trail.reverse).length + 1 := by
    rw [List.length_append, List.length_singleton]
  have hnext : w.level + 1 = ((base ++ w.trail.reverse ++ [value]).length : Nat) := by
    rw [hw.level_eq, hlength]
    omega
  have hle : (base ++ w.trail.reverse ++ [value]).length ≤ n := by
    have hle := hw.length_le
    rw [hw.level_eq, hw.count_eq] at hlevel
    omega
  constructor <;> simp only [hvalues]
  · exact hw.count_eq
  · exact hnext
  · exact hle
  · rw [hnext]
    exact hvalid.unassign hle
  · intro _ _
    exact hvalid

theorem conflict (hw : w.IsSound n cs base) (hcs : ∀ c ∈ cs, c.WellFormed n) {value : Bool}
    {b : Board} (hlevel : w.level ≠ w.count)
    (hdecide : w.board.decide w.level value = (.conflict, b)) :
    IsSound n cs base { w with
      phase := .after value, conflicts := w.conflicts + 1, board := b } := by
  rcases hw.decide_cases hcs value hlevel with ⟨b', heq, -, hvalid, -⟩ | ⟨b', heq, -⟩
  · rw [hdecide] at heq
    cases heq
    refine ⟨hw.count_eq, hw.level_eq, hw.length_le, hvalid, ?_⟩
    cases value <;> simp [Phase.after]
  · rw [hdecide] at heq
    cases heq

theorem decide_ne_outOfRange (hw : w.IsSound n cs base) (hcs : ∀ c ∈ cs, c.WellFormed n)
    (value : Bool) (b : Board) (hlevel : w.level ≠ w.count) :
    w.board.decide w.level value ≠ (.outOfRange, b) := by
  intro hdecide
  rcases hw.decide_cases hcs value hlevel with ⟨b', heq, -⟩ | ⟨b', heq, -⟩ <;>
    · rw [hdecide] at heq
      cases heq

theorem back (hw : w.IsSound n cs base) {value : Bool} {trail : List Bool}
    (hphase : w.phase = .leaving) (htrail : w.trail = value :: trail) :
    IsSound n cs base { w with level := w.level - 1, phase := .after value, trail } := by
  have hvalues : base ++ w.trail.reverse = base ++ trail.reverse ++ [value] := by
    rw [htrail, List.reverse_cons, List.append_assoc]
  have hlength : (base ++ w.trail.reverse).length = (base ++ trail.reverse).length + 1 := by
    rw [hvalues, List.length_append, List.length_singleton]
  have hle := hw.length_le
  have hlevel : w.level - 1 = ((base ++ trail.reverse).length : Nat) := by
    rw [hw.level_eq, hlength]
    omega
  have hvalid := hw.settled (by simp [hphase]) (by simp [hphase])
  rw [hvalues] at hvalid
  refine ⟨hw.count_eq, hlevel, by simp only; omega, ?_, ?_⟩
  · simp only [hlevel]
    exact hvalid.unassign_concat (by omega)
  · cases value <;> simp [Phase.after]

/-- A step keeps a walk sound and never meets a literal without a slot. -/
theorem step (hw : w.IsSound n cs base) (hcs : ∀ c ∈ cs, c.WellFormed n) :
    w.step.2.IsSound n cs base ∧ w.step.1 ≠ some .outOfRange := by
  have hsteps := steps_step w
  generalize w.step.1 = answer, w.step.2 = w' at hsteps ⊢
  cases hsteps with
  | model hphase hlevel =>
      refine ⟨?_, by simp⟩
      exact ⟨hw.count_eq, hw.level_eq, hw.length_le, hw.valid,
        fun _ _ => hw.isValid_of_level_eq hlevel⟩
  | moved hphase hlevel hdecide => exact ⟨hw.moved hcs hlevel hdecide, by simp⟩
  | conflict hphase hlevel hdecide => exact ⟨hw.conflict hcs hlevel hdecide, by simp⟩
  | outOfRange hphase hlevel hdecide =>
      exact absurd hdecide (hw.decide_ne_outOfRange hcs _ _ hlevel)
  | clear hphase =>
      refine ⟨?_, by simp⟩
      refine ⟨hw.count_eq, hw.level_eq, hw.length_le, ?_, fun _ _ => hw.valid⟩
      have hvalid := hw.valid.unassign hw.length_le
      rwa [← hw.level_eq] at hvalid
  | exhausted hphase htrail =>
      refine ⟨?_, by simp⟩
      exact ⟨hw.count_eq, hw.level_eq, hw.length_le, hw.valid,
        fun _ _ => hw.settled (by simp [hphase]) (by simp [hphase])⟩
  | back hphase htrail => exact ⟨hw.back hphase htrail, by simp⟩
  | ended hphase => exact ⟨hw, by simp⟩

theorem reaches {w₀ : Walk} (hw₀ : w₀.IsSound n cs base) (hcs : ∀ c ∈ cs, c.WellFormed n)
    (h : w₀.Reaches w) : w.IsSound n cs base := by
  induction h with
  | refl => exact hw₀
  | step _ ih => exact (ih.step hcs).1

theorem isValid_pull (hw : w.IsSound n cs base) (hcs : ∀ c ∈ cs, c.WellFormed n) :
    ∃ values, w.pull.2.board.IsValid n cs values := by
  obtain ⟨w₁, hreaches, hstep⟩ := exists_step_eq_pull (.refl : w.Reaches w)
  have hsound := hw.reaches hcs hreaches
  have hnext := hsound.step hcs
  have hsteps := steps_step w₁
  rw [hstep] at hnext hsteps
  refine ⟨_, hnext.1.settled ?_ ?_⟩ <;>
    · simp only at hsteps
      generalize w.pull.1 = answer, w.pull.2 = w' at hsteps
      cases hsteps with
      | model => simp
      | outOfRange => simp
      | exhausted => simp
      | ended hphase => simp [hphase]

theorem isValid_afterPulls (hw : w.IsSound n cs base) (hcs : ∀ c ∈ cs, c.WellFormed n)
    (hboard : w.board.IsValid n cs base) (k : Nat) :
    ∃ values, (w.afterPulls k).board.IsValid n cs values := by
  cases k with
  | zero => exact ⟨base, hboard⟩
  | succ k => exact (hw.reaches hcs (reaches_afterPulls w k)).isValid_pull hcs

end IsSound

/-- The watch list of a search is in order after every decision that goes through and after every
pull, be it at a model, at the end or after it. What an ended search leaves behind is in order with
all variables open, and a second search on it finds the same models in the same order. -/
theorem watches_throughout (n : Nat) (cs : List Clause) (hcs : ∀ c ∈ cs, c.WellFormed n) :
    ∃ w₀, WatchList.ofClauses? n cs = some w₀ ∧
      (∀ w b, (Search.start n w₀).Reaches w → w.decision? = some (.moved, b) →
        b.watches.Watches n cs b.assignment) ∧
      (∀ k, (Search.start n w₀).Reaches ((Search.start n w₀).afterPulls k) ∧
        ((Search.start n w₀).afterPulls k).board.watches.Watches n cs
          ((Search.start n w₀).afterPulls k).board.assignment) ∧
      (Search.start n w₀).trace.answer = .exhausted ∧
      (Search.start n w₀).trace.board.assignment = List.replicate n none ∧
      (Search.start n w₀).trace.board.watches.Watches n cs (List.replicate n none) ∧
      (Search.start n (Search.start n w₀).trace.board.watches).models =
        (Search.start n w₀).models := by
  obtain ⟨w₀, hw₀, hwatches⟩ := WatchList.Watches.exists_ofClauses? hcs
  have hboard : Board.IsValid n cs [] ⟨List.replicate n none, w₀⟩ := ⟨rfl, hwatches⟩
  have hlen : ([] : List Bool).length ≤ n := Nat.zero_le n
  have hsound : (Search.start n w₀).IsSound n cs [] := isSound_start hlen hboard
  obtain ⟨hanswer, hend, hmodels⟩ := trace_spec hcs hlen hboard
  have hopen : (Search.start n w₀).trace.board.assignment = List.replicate n none :=
    hend.assignment_eq
  have hleft := hend.watches
  rw [hend.assignment_eq] at hleft
  refine ⟨w₀, hw₀, ?_, ?_, hanswer, hopen, hleft, ?_⟩
  · intro w b hreaches hdecision
    have hw := hsound.reaches hcs hreaches
    unfold decision? at hdecision
    split at hdecision
    · split at hdecision
      · simp at hdecision
      · next hlevel =>
        exact (hw.isValid_of_moved hcs hlevel (Option.some.inj hdecision)).watches
    · simp at hdecision
  · intro k
    refine ⟨reaches_afterPulls _ k, ?_⟩
    obtain ⟨values, hvalid⟩ := hsound.isValid_afterPulls hcs hboard k
    exact hvalid.watches
  · have hagain : Board.IsValid n cs []
        ⟨List.replicate n none, (Search.start n w₀).trace.board.watches⟩ := ⟨rfl, hleft⟩
    obtain ⟨-, -, hmodels'⟩ := trace_spec hcs hlen hagain
    exact hmodels'.trans hmodels.symm

/-- Two clauses of which the first one moves on the way. -/
theorem watches_throughout_two_clauses :
    ∃ w₀, WatchList.ofClauses? 2 [[⟨0⟩, ⟨2⟩, ⟨0⟩], [⟨1⟩, ⟨3⟩]] = some w₀ ∧
      (Search.start 2 (Search.start 2 w₀).trace.board.watches).models =
        (Search.start 2 w₀).models := by
  obtain ⟨w₀, hw₀, -, -, -, -, -, hsame⟩ :=
    watches_throughout 2 [[⟨0⟩, ⟨2⟩, ⟨0⟩], [⟨1⟩, ⟨3⟩]] (by decide)
  exact ⟨w₀, hw₀, hsame⟩

end CnfSolver.Walk
