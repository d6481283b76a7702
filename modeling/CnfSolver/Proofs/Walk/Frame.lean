import CnfSolver.Proofs.Search.Log
import CnfSolver.Proofs.Walk.Board
import CnfSolver.Proofs.Walk.Recursion
import CnfSolver.Proofs.Walk.Run

/-!
# The entries that a walk writes

A walk writes the entries of the variables that it decides and no others, whatever its watch list
holds and however it ends. The entries of the variables above its level have the values on its
trail. Those from its level on are as they were at the start or open, but for the entry of its
level, which may hold the first value until the second one is tried and the variable is opened. So
the assignment has values everywhere at a model, and a walk over open variables leaves them open.
-/

namespace CnfSolver

namespace Assignment

def IsKeptOrOpen (a a' : Assignment) (i : Nat) : Prop := a'[i]? = a[i]? ∨ a'[i]? = some none

/-- `a'` comes from `a` by giving the values of `trail`, the latest first, to the variables from `s`
on and by opening some variables behind them. The first entry behind them may be any. -/
structure Keeps (a : Assignment) (n s : Nat) (trail : List Bool) (a' : Assignment) : Prop where
  length_eq : a'.length = a.length
  outside : ∀ i, i < s ∨ n ≤ i → a'[i]? = a[i]?
  chosen : ∀ j value, trail.reverse[j]? = some value → a'[s + j]? = some (some value.toInt)
  behind : ∀ i, s + trail.length < i → i < n → IsKeptOrOpen a a' i

namespace Keeps

variable {a a' : Assignment} {n s : Nat} {trail : List Bool}

theorem refl (a : Assignment) (n s : Nat) : Keeps a n s [] a where
  length_eq := rfl
  outside _ _ := rfl
  chosen j value h := by simp at h
  behind _ _ _ := .inl rfl

theorem set (h : Keeps a n s trail a') (hlt : s + trail.length < n) (x : Option Int) :
    Keeps a n s trail (a'.set (s + trail.length) x) := by
  have hsame {i : Nat} (hi : i ≠ s + trail.length) :
      (a'.set (s + trail.length) x)[i]? = a'[i]? := List.getElem?_set_ne hi.symm
  refine ⟨?_, ?_, ?_, ?_⟩
  · rw [List.length_set, h.length_eq]
  · intro i hi
    rw [hsame (by omega), h.outside i hi]
  · intro j value hj
    have hlength := (List.getElem?_eq_some_iff.1 hj).1
    rw [List.length_reverse] at hlength
    rw [hsame (by omega), h.chosen j value hj]
  · intro i hgt hi
    unfold IsKeptOrOpen
    rw [hsame (by omega)]
    exact h.behind i hgt hi

/-- A value goes on the trail once it is written behind it. -/
theorem push (h : Keeps a n s trail a') (hlt : s + trail.length < n) (hn : n ≤ a.length)
    (value : Bool) :
    Keeps a n s (value :: trail) (a'.set (s + trail.length) (some value.toInt)) := by
  have hset := h.set hlt (some value.toInt)
  refine ⟨hset.length_eq, hset.outside, ?_, ?_⟩
  · intro j value' hj
    rw [List.reverse_cons] at hj
    by_cases hlast : j < trail.length
    · rw [List.getElem?_append_left (by rwa [List.length_reverse])] at hj
      exact hset.chosen j value' hj
    · have hlength := (List.getElem?_eq_some_iff.1 hj).1
      rw [List.length_append, List.length_reverse, List.length_singleton] at hlength
      obtain rfl : j = trail.length := by omega
      have hreverse : trail.length = trail.reverse.length := List.length_reverse.symm
      rw [hreverse, List.getElem?_concat_length, Option.some.injEq] at hj
      rw [List.getElem?_set_self (by rw [h.length_eq]; omega), hj]
  · intro i hgt hi
    rw [List.length_cons] at hgt
    exact hset.behind i (by omega) hi

/-- A value goes off the trail if the entry behind it is as it was, or open. -/
theorem pop {value : Bool} (h : Keeps a n s (value :: trail) a')
    (hfirst : s + (trail.length + 1) < n → IsKeptOrOpen a a' (s + (trail.length + 1))) :
    Keeps a n s trail a' := by
  refine ⟨h.length_eq, h.outside, ?_, ?_⟩
  · intro j value' hj
    have hlength := (List.getElem?_eq_some_iff.1 hj).1
    refine h.chosen j value' ?_
    rw [List.reverse_cons, List.getElem?_append_left hlength, hj]
  · intro i hgt hi
    by_cases hnext : i = s + (trail.length + 1)
    · subst hnext
      exact hfirst hi
    · exact h.behind i (by rw [List.length_cons]; omega) hi

theorem decided_of_full (h : Keeps a n s trail a') (hfull : s + trail.length = n) :
    ∀ i, s ≤ i → i < n → a'[i]? = some (some 0) ∨ a'[i]? = some (some 1) := by
  intro i hs hi
  have hlt : i - s < trail.reverse.length := by
    rw [List.length_reverse]
    omega
  have hentry := h.chosen (i - s) _ (List.getElem?_eq_getElem hlt)
  rw [Nat.add_sub_of_le hs] at hentry
  cases hvalue : trail.reverse[i - s] with
  | false => exact .inl (by rw [hentry, hvalue]; rfl)
  | true => exact .inr (by rw [hentry, hvalue]; rfl)

theorem eq_of_open (h : Keeps a n s [] a') (hfirst : s < n → IsKeptOrOpen a a' s)
    (hopen : ∀ i, s ≤ i → i < n → a[i]? = some none) : a' = a := by
  apply List.ext_getElem?
  intro i
  by_cases hi : i < s ∨ n ≤ i
  · exact h.outside i hi
  · have hentry : IsKeptOrOpen a a' i := by
      by_cases hs : i = s
      · subst hs
        exact hfirst (by omega)
      · exact h.behind i (by rw [List.length_nil]; omega) (by omega)
    rcases hentry with hsame | hnone
    · exact hsame
    · rw [hnone, hopen i (by omega) (by omega)]

end Keeps

end Assignment

namespace Board

variable {b : Board} {k : Nat}

theorem assignment_decide (h : k < b.assignment.length) (value : Bool) :
    (b.decide k value).2.assignment = b.assignment.set k (some value.toInt) := by
  rw [decide, Index.set?_natCast h]

theorem assignment_unassign (h : k < b.assignment.length) :
    (b.unassign k).assignment = b.assignment.set k none := by
  rw [unassign_of_lt h]

end Board

namespace Walk

open Assignment (Keeps IsKeptOrOpen)

/-- The walk started at `s` with the assignment `a`, and all that it has written since then are the
values on its trail, open entries behind them, and the entry of its level. That entry is as it was
or open, too, unless the second value is to be tried or the variable to be opened. -/
structure IsFramed (a : Assignment) (n s : Nat) (w : Walk) : Prop where
  count_eq : w.count = n
  level_eq : w.level = (s + w.trail.length : Nat)
  level_le : s + w.trail.length ≤ n
  level_lt : w.phase = .trying true ∨ w.phase = .clearing → s + w.trail.length < n
  keeps : Keeps a n s w.trail w.board.assignment
  settled : w.phase = .trying false ∨ w.phase = .leaving → s + w.trail.length < n →
    IsKeptOrOpen a w.board.assignment (s + w.trail.length)

variable {a : Assignment} {n s : Nat} {w : Walk}

theorem isFramed_start {b : Board} (hs : s ≤ n) :
    (Walk.start n s b).IsFramed b.assignment n s where
  count_eq := rfl
  level_eq := rfl
  level_le := hs
  level_lt h := by simp [start] at h
  keeps := .refl _ _ _
  settled _ _ := .inl rfl

namespace IsFramed

theorem lt_of_level_ne (hw : w.IsFramed a n s) (hlevel : w.level ≠ w.count) :
    s + w.trail.length < n := by
  have hle := hw.level_le
  rw [hw.level_eq, hw.count_eq] at hlevel
  omega

theorem assignment_decide (hw : w.IsFramed a n s) (hn : n ≤ a.length)
    (hlevel : w.level ≠ w.count) {value : Bool} {verdict : Verdict} {board : Board}
    (hdecide : w.board.decide w.level value = (verdict, board)) :
    board.assignment = w.board.assignment.set (s + w.trail.length) (some value.toInt) := by
  have hlt : s + w.trail.length < w.board.assignment.length := by
    have := hw.lt_of_level_ne hlevel
    have := hw.keeps.length_eq
    omega
  rw [hw.level_eq] at hdecide
  rw [← Board.assignment_decide hlt, hdecide]

theorem step (hw : w.IsFramed a n s) (hn : n ≤ a.length) : w.step.2.IsFramed a n s := by
  have hsteps := steps_step w
  generalize w.step.1 = answer, w.step.2 = w' at hsteps ⊢
  cases hsteps with
  | model hphase hlevel =>
      have hfull : s + w.trail.length = n := by
        rw [hw.level_eq, hw.count_eq] at hlevel
        omega
      refine ⟨hw.count_eq, hw.level_eq, hw.level_le, by simp, hw.keeps, ?_⟩
      intro _ hlt
      exact absurd hfull (Nat.ne_of_lt hlt)
  | @moved value board hphase hlevel hdecide =>
      have hlt := hw.lt_of_level_ne hlevel
      have hset := hw.assignment_decide hn hlevel hdecide
      refine ⟨hw.count_eq, ?_, ?_, by simp, ?_, ?_⟩
      · simp only [hw.level_eq, List.length_cons]
        omega
      · simp only [List.length_cons]
        omega
      · simp only [hset]
        exact hw.keeps.push hlt hn value
      · intro _ hnext
        simp only [List.length_cons] at hnext ⊢
        rw [hset]
        exact (hw.keeps.set hlt _).behind _ (by omega) hnext
  | @conflict value board hphase hlevel hdecide =>
      have hlt := hw.lt_of_level_ne hlevel
      have hset := hw.assignment_decide hn hlevel hdecide
      refine ⟨hw.count_eq, hw.level_eq, hw.level_le, fun _ => hlt, ?_, ?_⟩
      · simp only [hset]
        exact hw.keeps.set hlt _
      · cases value <;> simp [Phase.after]
  | @outOfRange value board hphase hlevel hdecide =>
      have hlt := hw.lt_of_level_ne hlevel
      have hset := hw.assignment_decide hn hlevel hdecide
      refine ⟨hw.count_eq, hw.level_eq, hw.level_le, by simp, ?_, by simp⟩
      simp only [hset]
      exact hw.keeps.set hlt _
  | clear hphase =>
      have hlt := hw.level_lt (.inr hphase)
      have hlength : s + w.trail.length < w.board.assignment.length := by
        have := hw.keeps.length_eq
        omega
      have hset : (w.board.unassign w.level).assignment =
          w.board.assignment.set (s + w.trail.length) none := by
        rw [hw.level_eq]
        exact Board.assignment_unassign hlength
      refine ⟨hw.count_eq, hw.level_eq, hw.level_le, by simp, ?_, ?_⟩
      · simp only [hset]
        exact hw.keeps.set hlt none
      · intro _ _
        simp only [hset]
        exact .inr (List.getElem?_set_self hlength)
  | exhausted hphase htrail =>
      exact ⟨hw.count_eq, hw.level_eq, hw.level_le, by simp, hw.keeps, by simp⟩
  | @back value trail hphase htrail =>
      obtain ⟨hcount, hlevel, hle, -, hkeeps, hsettled⟩ := hw
      rw [htrail] at hlevel hle hkeeps hsettled
      rw [List.length_cons] at hlevel hle hsettled
      refine ⟨hcount, ?_, ?_, ?_, hkeeps.pop (hsettled (.inr hphase)), ?_⟩
      · simp only
        omega
      · simp only
        omega
      · intro _
        simp only
        omega
      · cases value <;> simp [Phase.after]
  | ended hphase => exact hw

theorem reaches {w₀ : Walk} (hw₀ : w₀.IsFramed a n s) (hn : n ≤ a.length)
    (h : w₀.Reaches w) : w.IsFramed a n s := by
  induction h with
  | refl => exact hw₀
  | step _ ih => exact ih.step hn

theorem of_pull_model {w' : Walk} (hw : w.IsFramed a n s) (hn : n ≤ a.length)
    (h : w.pull = (.model, w')) :
    w'.IsFramed a n s ∧ s + w'.trail.length = n := by
  obtain ⟨w₁, hreaches, hstep⟩ := exists_step_eq_pull (.refl : w.Reaches w)
  have hw₁ := hw.reaches hn hreaches
  have hsteps := steps_step w₁
  rw [hstep, h] at hsteps
  have hw' := hw₁.step hn
  rw [hstep, h] at hw'
  refine ⟨hw', ?_⟩
  cases hsteps with
  | model hphase hlevel =>
      rw [hw₁.level_eq, hw₁.count_eq] at hlevel
      simp only
      omega

theorem of_pull_exhausted {w' : Walk} (hw : w.IsFramed a n s) (hn : n ≤ a.length)
    (h : w.pull = (.exhausted, w')) :
    Keeps a n s [] w'.board.assignment ∧ (s < n → IsKeptOrOpen a w'.board.assignment s) := by
  obtain ⟨w₁, hreaches, hstep⟩ := exists_step_eq_pull (.refl : w.Reaches w)
  have hw₁ := hw.reaches hn hreaches
  have hsteps := steps_step w₁
  rw [hstep, h] at hsteps
  cases hsteps with
  | exhausted hphase htrail =>
      have hkeeps := hw₁.keeps
      have hsettled := hw₁.settled (.inr hphase)
      rw [htrail] at hkeeps hsettled
      exact ⟨hkeeps, hsettled⟩

end IsFramed

/-- The models of a walk are the assignments at the pulls that find one. -/
theorem getElem?_models (w : Walk) (k : Nat) (m : Assignment) :
    w.models[k]? = some m ↔
      ∃ w', (w.afterPulls k).pull = (.model, w') ∧ w'.board.assignment = m := by
  induction k generalizing w with
  | zero =>
      cases hpull : w.pull with
      | mk answer w₁ =>
          rw [afterPulls, hpull]
          by_cases hmodel : answer = .model
          · subst hmodel
            rw [models, trace_of_model hpull]
            simp
          · rw [models, trace_of_end hpull hmodel]
            simp [hmodel]
  | succ k ih =>
      cases hpull : w.pull with
      | mk answer w₁ =>
          rw [afterPulls_succ, hpull, ← ih w₁]
          by_cases hmodel : answer = .model
          · subst hmodel
            rw [models, trace_of_model hpull]
            rfl
          · -- an ended walk finds no more models
            have hover := phase_of_pull hpull hmodel
            have hend := pull_of_stop (step_of_over hover)
            rw [models, trace_of_end hpull hmodel, models, trace_of_end hend (by simp)]
            rfl

/-- A walk from `s` over `n` variables leaves the entries before `s` and from `n` on as they are, at
every step, after the end and after an error. What it finds is the assignment as it is at that pull,
with a value for each variable in between. If these variables were open at the start, they are open
once the walk is exhausted. The watch list may be any. -/
theorem assignment_of_reaches (n s : Nat) (b : Board) (hs : s ≤ n)
    (hn : n ≤ b.assignment.length) :
    (∀ w, Reaches (Walk.start n s b) w →
      w.board.assignment.length = b.assignment.length ∧
      ∀ i, i < s ∨ n ≤ i → w.board.assignment[i]? = b.assignment[i]?) ∧
    (∀ k m, (Walk.start n s b).models[k]? = some m ↔
      ∃ w, ((Walk.start n s b).afterPulls k).pull = (.model, w) ∧ w.board.assignment = m) ∧
    (∀ m ∈ (Walk.start n s b).models,
      (∀ i, s ≤ i → i < n → m[i]? = some (some 0) ∨ m[i]? = some (some 1)) ∧
      ∀ i, i < s ∨ n ≤ i → m[i]? = b.assignment[i]?) ∧
    ((∀ i, s ≤ i → i < n → b.assignment[i]? = some none) →
      ∀ k w, ((Walk.start n s b).afterPulls k).pull = (.exhausted, w) →
        w.board.assignment = b.assignment) := by
  have hstart : (Walk.start n s b).IsFramed b.assignment n s := isFramed_start hs
  have hpulls (k : Nat) : ((Walk.start n s b).afterPulls k).IsFramed b.assignment n s :=
    hstart.reaches hn (reaches_afterPulls _ k)
  refine ⟨?_, getElem?_models _, ?_, ?_⟩
  · intro w hreaches
    have hkeeps := (hstart.reaches hn hreaches).keeps
    exact ⟨hkeeps.length_eq, hkeeps.outside⟩
  · intro m hm
    obtain ⟨k, hk⟩ := List.mem_iff_getElem?.1 hm
    obtain ⟨w, hpull, rfl⟩ := (getElem?_models _ k m).1 hk
    obtain ⟨hw, hfull⟩ := (hpulls k).of_pull_model hn hpull
    exact ⟨hw.keeps.decided_of_full hfull, hw.keeps.outside⟩
  · intro hopen k w hpull
    obtain ⟨hkeeps, hfirst⟩ := (hpulls k).of_pull_exhausted hn hpull
    exact hkeeps.eq_of_open hfirst hopen

/-- A clause watches a literal that it does not have, and the variables on either side have values
that are neither zero nor one. -/
theorem assignment_of_reaches_between :
    let b : Board :=
      ⟨[some 5, none, none, some 7], [[], [], [[⟨2⟩, ⟨4⟩]], [], [], [[⟨0⟩], [⟨5⟩]]]⟩
    let w₀ := Walk.start 3 1 b
    w₀.models = [[some 5, some 1, some 0, some 7]] ∧
      (∀ w, w₀.Reaches w →
        w.board.assignment[0]? = some (some 5) ∧ w.board.assignment[3]? = some (some 7)) ∧
      ∃ w, (w₀.afterPulls 1).pull = (.exhausted, w) ∧ w.board.assignment = b.assignment := by
  intro b w₀
  have htrace : w₀.trace = b.descend 3 2 0 := trace_start_eq_descend 3 1 (by decide) b
  have hmodels : w₀.models = [[some 5, some 1, some 0, some 7]] := by
    rw [models, htrace]
    decide
  have hstop : ((b.descend 3 2 0).stop 1).1 = .exhausted := by decide
  have hanswer : (w₀.afterPulls 1).pull.1 = .exhausted := by
    rw [← hstop, ← htrace, ← Search.found_afterPulls, Search.found]
  have hopen : ∀ i < 3, 1 ≤ i → b.assignment[i]? = some none := by decide
  obtain ⟨hframe, -, -, hend⟩ := assignment_of_reaches 3 1 b (by decide) (by decide)
  refine ⟨hmodels, fun w hw => ?_, (w₀.afterPulls 1).pull.2, ?_, ?_⟩
  · obtain ⟨-, houtside⟩ := hframe w hw
    exact ⟨houtside 0 (by decide), houtside 3 (by decide)⟩
  · exact Prod.ext hanswer rfl
  · exact hend (fun i hs hi => hopen i hi hs) 1 _ (Prod.ext hanswer rfl)

end Walk

end CnfSolver
