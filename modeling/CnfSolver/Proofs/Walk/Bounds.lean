import CnfSolver.Proofs.Search.Log
import CnfSolver.Proofs.Walk.Decisions
import CnfSolver.Proofs.Watches.Relocation
import Mathlib.Algebra.Group.Nat.Defs

/-!
# How long a walk can be

A walk over `n` variables from `s` on has at most as many leaves as the binary tree of depth
`n - s`, and at most as many decisions as that tree has edges. No step adds to the leaves that are
left, and each decision costs as much as it takes from twice their number, less those that are owed.
Nothing is asked of the watch list, so a walk ends even where it runs into an error.
-/

namespace CnfSolver

/-! ## Pulls are finite -/

namespace Walk

def afterSteps (w : Walk) : Nat → Walk
  | 0 => w
  | k + 1 => (w.afterSteps k).step.2

theorem afterSteps_succ (w : Walk) (k : Nat) :
    w.afterSteps (k + 1) = w.step.2.afterSteps k := by
  induction k with
  | zero => rfl
  | succ k ih => exact congrArg (fun w => w.step.2) ih

theorem exists_afterSteps_pull (w : Walk) :
    ∃ k, (∀ j < k, (w.afterSteps j).step.1 = none) ∧
      (w.afterSteps k).step = (some w.pull.1, w.pull.2) := by
  fun_induction Walk.pull w with
  | case1 w answer w' hstep => exact ⟨0, fun j hj => absurd hj (Nat.not_lt_zero j), hstep⟩
  | case2 w w' hstep ih =>
      obtain ⟨k, hnone, hlast⟩ := ih
      have hnext (j : Nat) : w.afterSteps (j + 1) = w'.afterSteps j := by
        rw [afterSteps_succ, hstep]
      refine ⟨k + 1, fun j hj => ?_, by rw [hnext, hlast]⟩
      cases j with
      | zero => rw [afterSteps, hstep]
      | succ j =>
          rw [hnext]
          exact hnone j (Nat.lt_of_succ_lt_succ hj)

end Walk

/-! ## Leaves that are left -/

namespace Phase

/-- The leaves that a walk in this phase can come to at its level and below, with `room` variables
left to decide. -/
def leaves (room : Nat) : Phase → Nat
  | .trying false => 2 ^ room
  | .trying true => 2 ^ (room - 1)
  | _ => 0

/-- The leaves below a value come before those that come after it. -/
theorem leaves_trying (value : Bool) (room : Nat) :
    (trying value).leaves (room + 1) = 2 ^ room + (after value).leaves (room + 1) := by
  cases value with
  | false => exact Nat.two_pow_succ room
  | true => rfl

theorem owed_trying (value : Bool) : (trying value).owed = 1 + (after value).owed := by
  cases value <;> rfl

theorem owed_le_leaves (phase : Phase) (room : Nat) : phase.owed ≤ 2 * phase.leaves room := by
  have := Nat.two_pow_pos room
  have := Nat.two_pow_pos (room - 1)
  cases phase with
  | trying value => cases value <;> simp only [owed, leaves] <;> omega
  | _ => exact Nat.zero_le _

end Phase

namespace Walk

/-- The leaves that come once a walk goes back to the levels above. -/
def trailLeaves (room : Nat) : List Bool → Nat
  | [] => 0
  | value :: trail => (Phase.after value).leaves (room + 1) + trailLeaves (room + 1) trail

def room (w : Walk) : Nat := (w.count - w.level).toNat

def leaves (w : Walk) : Nat := w.phase.leaves w.room + trailLeaves w.room w.trail

theorem count_false_cons (value : Bool) (trail : List Bool) :
    (value :: trail).count false = (Phase.after value).owed + trail.count false := by
  cases value <;> simp [Phase.after, Phase.owed, Nat.add_comm]

theorem count_false_le_trailLeaves (trail : List Bool) (room : Nat) :
    trail.count false ≤ 2 * trailLeaves room trail := by
  induction trail generalizing room with
  | nil => exact Nat.zero_le _
  | cons value trail ih =>
      have := (Phase.after value).owed_le_leaves (room + 1)
      have := ih (room + 1)
      rw [count_false_cons, trailLeaves]
      omega

theorem owed_le_leaves (w : Walk) : w.owed ≤ 2 * w.leaves := by
  have := w.phase.owed_le_leaves w.room
  have := count_false_le_trailLeaves w.trail w.room
  unfold owed leaves
  omega

variable {w : Walk}

theorem IsWithin.leaves_of_trying (hw : w.IsWithin) {value : Bool}
    (hphase : w.phase = .trying value) (hlevel : w.level ≠ w.count) :
    ∃ r, w.room = r + 1 ∧ (w.count - (w.level + 1)).toNat = r ∧
      w.leaves = 2 ^ r + (Phase.after value).leaves (r + 1) + trailLeaves (r + 1) w.trail ∧
      w.owed = 1 + (Phase.after value).owed + w.trail.count false ∧
      w.decision?.toList.length = 1 := by
  have hle := hw.level_le
  obtain ⟨r, hroom⟩ : ∃ r, w.room = r + 1 := ⟨w.room - 1, by unfold room; omega⟩
  have hnext : (w.count - (w.level + 1)).toNat = r := by
    unfold room at hroom
    omega
  refine ⟨r, hroom, hnext, ?_, ?_, ?_⟩
  · rw [leaves, hphase, hroom, Phase.leaves_trying]
  · rw [owed, hphase, Phase.owed_trying]
  · simp [decision?, hphase, hlevel]

/-- A model takes one of the leaves that are left. A decision costs one, and takes at least that
from twice the leaves that are left, less those that are owed. -/
theorem IsWithin.leaves_step (hw : w.IsWithin) :
    w.step.2.leaves + (if w.step.1 = some .model then 1 else 0) ≤ w.leaves ∧
      w.decision?.toList.length + w.owed + 2 * w.step.2.leaves ≤
        2 * w.leaves + w.step.2.owed := by
  have hsteps := steps_step w
  generalize w.step.1 = answer, w.step.2 = w' at hsteps ⊢
  cases hsteps with
  | @model value hphase hlevel =>
      -- a second value is tried below the last variable only
      have hfalse : value = false := by
        cases value with
        | false => rfl
        | true =>
            have := hw.level_lt hphase
            omega
      simp [leaves, owed, Phase.leaves, Phase.owed, room, decision?, hphase, hlevel, hfalse]
      omega
  | @moved value board hphase hlevel hdecide =>
      obtain ⟨r, hroom, hnext, hleaves, howed, hone⟩ := hw.leaves_of_trying hphase hlevel
      have hleaves' : leaves { w with
          level := w.level + 1, phase := .trying false, trail := value :: w.trail, board } =
          2 ^ r + ((Phase.after value).leaves (r + 1) + trailLeaves (r + 1) w.trail) := by
        simp only [leaves, room, hnext, Phase.leaves, trailLeaves]
      have howed' : owed { w with
          level := w.level + 1, phase := .trying false, trail := value :: w.trail, board } =
          2 + ((Phase.after value).owed + w.trail.count false) := by
        simp only [owed, Phase.owed, count_false_cons]
      rw [hleaves', howed', hleaves, howed, hone]
      simp only [reduceCtorEq, if_false]
      omega
  | @conflict value board hphase hlevel hdecide =>
      obtain ⟨r, hroom, -, hleaves, howed, hone⟩ := hw.leaves_of_trying hphase hlevel
      have hpos := Nat.two_pow_pos r
      have hleaves' : leaves { w with
          phase := .after value, conflicts := w.conflicts + 1, board } =
          (Phase.after value).leaves (r + 1) + trailLeaves (r + 1) w.trail := by
        unfold room at hroom
        simp only [leaves, room, hroom]
      rw [hleaves', hleaves, howed, hone]
      simp only [reduceCtorEq, if_false, owed]
      omega
  | @outOfRange value board hphase hlevel hdecide =>
      obtain ⟨r, hroom, -, hleaves, howed, hone⟩ := hw.leaves_of_trying hphase hlevel
      have hpos := Nat.two_pow_pos r
      have hafter := (Phase.after value).owed_le_leaves (r + 1)
      have hleaves' : leaves { w with phase := .over, board } = trailLeaves (r + 1) w.trail := by
        unfold room at hroom
        simp only [leaves, room, hroom, Phase.leaves, Nat.zero_add]
      have howed' : owed { w with phase := .over, board } = w.trail.count false := by
        simp only [owed, Phase.owed, Nat.zero_add]
      rw [hleaves', howed', hleaves, howed, hone]
      simp only [Option.some.injEq, reduceCtorEq, if_false]
      omega
  | clear hphase =>
      simp [leaves, owed, Phase.leaves, Phase.owed, room, decision?, hphase]
      omega
  | exhausted hphase htrail =>
      simp [leaves, owed, Phase.leaves, Phase.owed, room, decision?, hphase]
      omega
  | @back value trail hphase htrail =>
      have hle := hw.level_le
      have hnext : (w.count - (w.level - 1)).toNat = w.room + 1 := by
        unfold room
        omega
      have hleaves' : leaves { w with level := w.level - 1, phase := .after value, trail } =
          w.leaves := by
        simp only [leaves, room, hphase, htrail, trailLeaves, Phase.leaves, Nat.zero_add]
        unfold room at hnext
        rw [hnext]
      have howed' :
          owed { w with level := w.level - 1, phase := .after value, trail } = w.owed := by
        simp only [owed, hphase, htrail, count_false_cons, Phase.owed, Nat.zero_add]
      rw [hleaves', howed']
      simp [decision?, hphase]
      omega
  | ended hphase =>
      simp [decision?, hphase]
      omega

theorem IsWithin.bounds (hw : w.IsWithin) :
    w.trace.models.length ≤ w.leaves ∧ w.decisions.length + w.owed ≤ 2 * w.leaves := by
  fun_induction decisions w with
  | case1 w w' hstep ih =>
      have hleaves := hw.leaves_step
      obtain ⟨hw', -⟩ := hw.step (by rw [hstep]; simp)
      rw [hstep] at hleaves hw'
      have hnext := ih hw'
      rw [trace_of_step hstep, List.length_append]
      simp only [reduceCtorEq, if_false] at hleaves
      omega
  | case2 w w' hstep ih =>
      have hleaves := hw.leaves_step
      obtain ⟨hw', -⟩ := hw.step (by rw [hstep]; simp)
      rw [hstep] at hleaves hw'
      have hnext := ih hw'
      rw [trace_of_step_model hstep, List.length_append]
      simp only [if_true] at hleaves
      simp only [List.length_cons]
      omega
  | case3 w answer w' hne hstep =>
      have hleaves := hw.leaves_step
      have howed := owed_le_leaves w'
      rw [hstep] at hleaves
      simp only at hleaves
      rw [trace_of_stop hstep hne]
      simp only [List.length_nil]
      omega

/-! ## The run as a whole -/

theorem phase_ne_over_of_step {w' : Walk} {answer : Option Answer} (h : w.step = (answer, w'))
    (hgoes : answer = none ∨ answer = some .model) : w'.phase ≠ .over := by
  have hsteps := steps_step w
  rw [h] at hsteps
  cases hsteps with
  | model => simp
  | moved => simp
  | conflict => simp only [Phase.after]; split <;> simp
  | clear => simp
  | back => simp only [Phase.after]; split <;> simp
  | _ => simp at hgoes

/-- A walk that has not ended yet will be exhausted or run into an error. -/
theorem answer_trace (h : w.phase ≠ .over) :
    w.trace.answer = .exhausted ∨ w.trace.answer = .outOfRange := by
  fun_induction decisions w with
  | case1 w w' hstep ih =>
      rw [trace_of_step hstep]
      exact ih (phase_ne_over_of_step hstep (.inl rfl))
  | case2 w w' hstep ih =>
      rw [trace_of_step_model hstep]
      exact ih (phase_ne_over_of_step hstep (.inr rfl))
  | case3 w answer w' hne hstep =>
      have hsteps := steps_step w
      rw [hstep] at hsteps
      rw [trace_of_stop hstep hne]
      cases hsteps with
      | model => exact absurd rfl hne
      | outOfRange => exact .inr rfl
      | exhausted => exact .inl rfl
      | ended hphase => exact absurd hphase h

/-- The pulls find the models, then the end, and then nothing. -/
theorem answer_afterPulls (w : Walk) (k : Nat) :
    (w.afterPulls k).pull.1 =
      if k < w.trace.models.length then .model
      else if k = w.trace.models.length then w.trace.answer
      else .over := by
  have hfound := congrArg Prod.fst (Search.found_afterPulls w k)
  rw [Search.found] at hfound
  rw [hfound, Trace.stop, Trace.stops]
  by_cases hlt : k < w.trace.models.length
  · rw [if_pos hlt, List.getElem?_append_left (by rwa [List.length_map]), List.getElem?_map,
      List.getElem?_eq_getElem hlt]
    rfl
  · rw [if_neg hlt, List.getElem?_append_right (by rw [List.length_map]; omega), List.length_map]
    by_cases heq : k = w.trace.models.length
    · rw [if_pos heq, heq, Nat.sub_self]
      rfl
    · rw [if_neg heq, List.getElem?_eq_none (by rw [List.length_singleton]; omega)]
      rfl

end Walk

namespace WatchList

theorem length_of_foldlM_append? {cs : List Clause} {w w' : WatchList}
    (h : cs.foldlM (fun w c => c.head?.bind fun l => append? w l c) w = some w') :
    w'.length = w.length := by
  induction cs generalizing w with
  | nil => rw [Option.some.inj h]
  | cons c cs ih =>
      rw [List.foldlM_cons] at h
      obtain ⟨w₁, hfirst, hrest⟩ := Option.bind_eq_some_iff.1 h
      obtain ⟨l, -, happend⟩ := Option.bind_eq_some_iff.1 hfirst
      rw [ih hrest, length_of_append? happend]

theorem length_of_ofClauses? {n : Nat} {cs : List Clause} {w : WatchList}
    (h : ofClauses? n cs = some w) : w.length = 2 * n := by
  rw [length_of_foldlM_append? h, List.length_replicate]

end WatchList

namespace Walk

theorem pull_of_lt {n : Nat} {s : Int} (hs : n < s) (a : Assignment) {w : WatchList}
    (hw : w.length = 2 * n) : (Walk.start n s ⟨a, w⟩).pull.1 = .outOfRange := by
  have hslot : w.slot? (Literal.of s false) = none := by
    have hplace : Index.place? w.length (Literal.of s false).code = none := by
      refine Index.place?_eq_none.2 (.inr ?_)
      simp only [Literal.of, Bool.toInt_false]
      omega
    rw [WatchList.slot?, Index.get?, hplace, Option.bind_none]
  have hdecide : (Board.decide ⟨a, w⟩ s false).1 = .outOfRange := by
    rw [Board.decide]
    cases Index.set? a s (some (Bool.toInt false)) with
    | none => rfl
    | some a' => simp only [Literal.falsifiedBy_toInt, WatchList.update, hslot]
  have hstep : (Walk.start n s ⟨a, w⟩).step.1 = some .outOfRange := by
    cases hresult : Board.decide ⟨a, w⟩ s false with
    | mk verdict board =>
        rw [hresult] at hdecide
        simp only at hdecide
        subst hdecide
        simp only [step, start, if_neg (Int.ne_of_gt hs), hresult]
  rw [pull_of_stop (Prod.ext hstep rfl)]

/-- The pulls of a walk end, each after finitely many steps, whatever its watch list and its
assignment hold. From `s` on, the walk finds at most `2 ^ (n - s)` models before it is exhausted or
runs into an error, and makes at most `2 ^ (n - s + 1) - 2` decisions, each with at most one update.
If `s` is behind the last variable, the first pull runs into the error. -/
theorem pulls_and_decisions_le (n : Nat) (s : Int) (a : Assignment) (w : WatchList)
    (hw : w.length = 2 * n) :
    (∀ k, ∃ steps,
      (∀ j < steps, (((Walk.start n s ⟨a, w⟩).afterPulls k).afterSteps j).step.1 = none) ∧
      (((Walk.start n s ⟨a, w⟩).afterPulls k).afterSteps steps).step =
        (some ((Walk.start n s ⟨a, w⟩).afterPulls k).pull.1,
          ((Walk.start n s ⟨a, w⟩).afterPulls k).pull.2)) ∧
    (s ≤ n →
      (∃ m ≤ 2 ^ (n - s).toNat,
        (∀ k < m, ((Walk.start n s ⟨a, w⟩).afterPulls k).pull.1 = .model) ∧
        (((Walk.start n s ⟨a, w⟩).afterPulls m).pull.1 = .exhausted ∨
          ((Walk.start n s ⟨a, w⟩).afterPulls m).pull.1 = .outOfRange) ∧
        ∀ k, m < k → ((Walk.start n s ⟨a, w⟩).afterPulls k).pull.1 = .over) ∧
      (Walk.start n s ⟨a, w⟩).decisions.length ≤ 2 ^ ((n - s).toNat + 1) - 2) ∧
    (n < s → (Walk.start n s ⟨a, w⟩).pull.1 = .outOfRange) ∧
    ∀ cs w', WatchList.ofClauses? n cs = some w' → w'.length = 2 * n := by
  refine ⟨fun k => exists_afterSteps_pull _, fun hs => ?_, fun hs => pull_of_lt hs a hw,
    fun cs w' => WatchList.length_of_ofClauses?⟩
  have hwithin : (Walk.start n s ⟨a, w⟩).IsWithin := isWithin_start hs _
  obtain ⟨hmodels, hdecisions⟩ := hwithin.bounds
  have hleaves : (Walk.start n s ⟨a, w⟩).leaves = 2 ^ (n - s).toNat := rfl
  have howed : (Walk.start n s ⟨a, w⟩).owed = 2 := rfl
  rw [hleaves] at hmodels hdecisions
  rw [howed] at hdecisions
  refine ⟨⟨_, hmodels, fun k hk => ?_, ?_, fun k hk => ?_⟩, ?_⟩
  · rw [answer_afterPulls, if_pos hk]
  · rw [answer_afterPulls, if_neg (Nat.lt_irrefl _), if_pos rfl]
    exact answer_trace (by simp [start])
  · rw [answer_afterPulls, if_neg (by omega), if_neg (by omega)]
  · rw [Nat.pow_succ]
    omega

/-- The walk starts before the first variable, a clause has a literal without a slot, and another is
empty. -/
theorem pulls_and_decisions_le_below_zero :
    let w : WatchList := [[], [[⟨1⟩, ⟨9⟩]], [[⟨-2⟩]], [[]]]
    (∃ m ≤ 8,
      (∀ k < m, ((Walk.start 2 (-1) ⟨[none, some 7], w⟩).afterPulls k).pull.1 = .model) ∧
      (((Walk.start 2 (-1) ⟨[none, some 7], w⟩).afterPulls m).pull.1 = .exhausted ∨
        ((Walk.start 2 (-1) ⟨[none, some 7], w⟩).afterPulls m).pull.1 = .outOfRange)) ∧
      (Walk.start 2 (-1) ⟨[none, some 7], w⟩).decisions.length ≤ 14 ∧
      (Walk.start 2 3 ⟨[none, some 7, none, none], w⟩).pull.1 = .outOfRange := by
  intro w
  obtain ⟨-, hbounds, -⟩ := pulls_and_decisions_le 2 (-1) [none, some 7] w rfl
  obtain ⟨⟨m, hm, hmodels, hend, -⟩, hdecisions⟩ := hbounds (by decide)
  obtain ⟨-, -, hbehind, -⟩ := pulls_and_decisions_le 2 3 [none, some 7, none, none] w rfl
  exact ⟨⟨m, hm, hmodels, hend⟩, hdecisions, hbehind (by decide)⟩

end Walk

end CnfSolver
