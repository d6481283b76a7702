import CnfSolver.Proofs.Session.Representation
import CnfSolver.Proofs.Session.Solve

/-!
# The life of a session

A session accepts clauses up to its first solve, in which it finds its solution. From then on it
stays as it is, whatever it is asked. Someone who sets the stage can open it again for clauses, but
cannot make it look for another solution.
-/

namespace CnfSolver.Session

def Action.IsSolving : Action → Prop
  | .solve | .answer .. => True
  | .addText _ | .addDimacs _ | .addClauses _ | .setStage _ => False

instance : DecidablePred Action.IsSolving
  | .solve | .answer .. => isTrue trivial
  | .addText _ | .addDimacs _ | .addClauses _ | .setStage _ => isFalse id

theorem Action.IsOrdinary.isAdding {action : Action} (h : action.IsOrdinary)
    (hsolving : ¬action.IsSolving) : action.IsAdding := by
  cases action with
  | addText | addDimacs | addClauses => trivial
  | solve | answer => exact absurd trivial hsolving
  | setStage => exact h.elim

structure Step where
  files : Files
  action : Action

def after (s : Session) (steps : List Step) : Session :=
  steps.foldl (fun s step => (s.perform step.files step.action).1) s

variable {s s' : Session} {solution : Solution} {steps : List Step}

theorem after_append (s : Session) (steps later : List Step) :
    s.after (steps ++ later) = (s.after steps).after later :=
  List.foldl_append

theorem after_split (s : Session) (before : List Step) (step : Step) (later : List Step) :
    s.after (before ++ step :: later) = (s.after (before ++ [step])).after later := by
  rw [List.append_cons, after_append]

theorem after_induct {P : Session → Prop}
    (hstep : ∀ s, ∀ step ∈ steps, P s → P (s.perform step.files step.action).1) (h : P s) :
    P (s.after steps) := by
  induction steps generalizing s with
  | nil => exact h
  | cons step steps ih =>
      apply ih fun s step' hstep' => hstep s step' (List.mem_cons_of_mem step hstep')
      exact hstep s step List.mem_cons_self h

theorem Reaches.after {allowed : Action → Prop} (h : Reaches allowed s s')
    (hallowed : ∀ step ∈ steps, allowed step.action) : Reaches allowed s (s'.after steps) := by
  apply after_induct ?_ h
  intro s' step hstep h
  exact h.perform step.files step.action (hallowed step hstep)

/-! ## Solving -/

theorem answer_of_solution (h : s.solution = some solution) (format : Format) (check : Bool) :
    s.answer format check = (s, s.report solution format check) := by
  rw [answer, solve_of_solution h]
  rfl

theorem perform_of_isSolving (s : Session) (files : Files) {action : Action}
    (h : action.IsSolving) : (s.perform files action).1 = s.solve.1 := by
  cases action with
  | solve | answer => rfl
  | addText | addDimacs | addClauses | setStage => exact h.elim

/-- A solve gives a solution and leaves it in the session, no matter how the stage was set. -/
theorem IsCanonical.solve (hs : s.IsCanonical) :
    ∃ solution, s.solve.2.result = .ok solution ∧ s.solve.1.solution = some solution := by
  cases hsolution : s.solution with
  | some solution =>
      rw [solve_of_solution hsolution]
      exact ⟨solution, rfl, hsolution⟩
  | none =>
      obtain ⟨solution, hresult, -⟩ := solutionOf_spec hs.wellFormed
      obtain ⟨hsession, hok⟩ := solve_of_solution_eq_none hsolution hresult
      rw [hsession]
      exact ⟨solution, hok, rfl⟩

/-! ## One step -/

theorem Adds.stage_eq (h : s.Adds s') : s'.stage = s.stage := by
  cases h with
  | nothing => rfl
  | batch => rfl

theorem Adds.solution_eq (h : s.Adds s') : s'.solution = s.solution := by
  cases h with
  | nothing => rfl
  | batch => rfl

/-- No action replaces a solution, not even one that sets the stage. -/
theorem solution_perform (h : s.solution = some solution) (files : Files) (action : Action) :
    (s.perform files action).1.solution = some solution := by
  by_cases hsolving : action.IsSolving
  · rw [perform_of_isSolving s files hsolving, solve_of_solution h]
    exact h
  · by_cases hordinary : action.IsOrdinary
    · rw [(adds_perform s files (hordinary.isAdding hsolving)).solution_eq]
      exact h
    · cases action with
      | setStage stage => exact h
      | _ => exact absurd trivial hordinary

structure IsSettled (s : Session) (solution : Solution) : Prop where
  solved : s.stage = .solved
  kept : s.solution = some solution

theorem IsSound.isSettled_solve (hs : s.IsSound) : ∃ solution, s.solve.1.IsSettled solution := by
  obtain ⟨solution, -, -, hsession⟩ := hs.solve
  rw [hsession]
  exact ⟨solution, rfl, rfl⟩

theorem IsSettled.perform (hs : s.IsSettled solution) (files : Files) {action : Action}
    (h : action.IsOrdinary) : (s.perform files action).1 = s := by
  by_cases hsolving : action.IsSolving
  · rw [perform_of_isSolving s files hsolving, solve_of_solution hs.kept]
  · rw [perform_of_solved hs.solved files (h.isAdding hsolving)]

/-! ## Runs -/

theorem after_of_isSolving (before : List Step) {step : Step} (h : step.action.IsSolving) :
    s.after (before ++ [step]) = (s.after before).solve.1 := by
  rw [after_append]
  exact perform_of_isSolving _ step.files h

theorem stage_after_of_isAdding (hsteps : ∀ step ∈ steps, step.action.IsAdding) :
    (s.after steps).stage = s.stage := by
  apply after_induct (P := fun s' => s'.stage = s.stage) ?_ rfl
  intro s' step hstep h
  exact (adds_perform s' step.files (hsteps step hstep)).stage_eq.trans h

theorem solution_after (h : s.solution = some solution) (steps : List Step) :
    (s.after steps).solution = some solution := by
  apply after_induct (P := fun s => s.solution = some solution) ?_ h
  intro s step _ h
  exact solution_perform h step.files step.action

theorem IsSettled.after_eq (hs : s.IsSettled solution)
    (hsteps : ∀ step ∈ steps, step.action.IsOrdinary) : s.after steps = s := by
  apply after_induct (P := fun s' => s' = s) ?_ rfl
  rintro _ step hstep rfl
  exact hs.perform step.files (hsteps step hstep)

/-- The step that asks for the solution leaves the session settled, and it stays so. -/
theorem isSettled_after (hs : s.IsSound) {before later : List Step} {step : Step}
    (hsteps : ∀ step' ∈ before ++ step :: later, step'.action.IsOrdinary)
    (hsolving : step.action.IsSolving) :
    (∃ solution, (s.after (before ++ step :: later)).IsSettled solution) ∧
      s.after (before ++ step :: later) = s.after (before ++ [step]) := by
  obtain ⟨hbefore, hrest⟩ := List.forall_mem_append.1 hsteps
  obtain ⟨-, hlater⟩ := List.forall_mem_cons.1 hrest
  have hsound : (s.after before).IsSound := (Reaches.refl.after hbefore).isSound hs
  have hstep : s.after (before ++ [step]) = (s.after before).solve.1 :=
    after_of_isSolving before hsolving
  obtain ⟨solution, hsettled⟩ := hsound.isSettled_solve
  have hsame : s.after (before ++ step :: later) = s.after (before ++ [step]) := by
    rw [after_split, hstep]
    exact hsettled.after_eq hlater
  refine ⟨⟨solution, ?_⟩, hsame⟩
  rw [hsame, hstep]
  exact hsettled

theorem stage_after_eq_solved_iff (hsteps : ∀ step ∈ steps, step.action.IsOrdinary) :
    (empty.after steps).stage = .solved ↔ ∃ step ∈ steps, step.action.IsSolving := by
  constructor
  · intro hsolved
    by_contra hnone
    have hadding : ∀ step ∈ steps, step.action.IsAdding := fun step hstep =>
      (hsteps step hstep).isAdding fun hsolving => hnone ⟨step, hstep, hsolving⟩
    rw [stage_after_of_isAdding hadding] at hsolved
    exact nomatch hsolved
  · rintro ⟨step, hstep, hsolving⟩
    obtain ⟨before, later, rfl⟩ := List.append_of_mem hstep
    obtain ⟨⟨solution, hsettled⟩, -⟩ := isSettled_after isSound_empty hsteps hsolving
    exact hsettled.solved

/-- In a run that leaves the stage alone, a session is solved just when it was asked for its
solution before. It is then the session that it was after the first time, and no more clauses can be
added from anywhere. In any run, the solution that was found the first time is given every time, and
giving it again changes nothing. -/
theorem solved_once (steps : List Step) :
    ((∀ step ∈ steps, step.action.IsOrdinary) →
      ((empty.after steps).stage = .solved ↔ ∃ step ∈ steps, step.action.IsSolving) ∧
      ((empty.after steps).isSolved = true ↔ ∃ step ∈ steps, step.action.IsSolving) ∧
      ∀ before step later, steps = before ++ step :: later → step.action.IsSolving →
        empty.after steps = empty.after (before ++ [step]) ∧
        ∀ files action, action.IsAdding → (empty.after steps).perform files action =
          (empty.after steps, .fail (.solved "Solution found: cannot add new clauses."))) ∧
    ∀ before step later, steps = before ++ step :: later → step.action.IsSolving →
      ∃ solution, (empty.after before).solve.2.result = .ok solution ∧
        (empty.after steps).solve = (empty.after steps, .done solution) ∧
        ∀ format check, (empty.after steps).answer format check =
          (empty.after steps, (empty.after steps).report solution format check) := by
  refine ⟨fun hsteps => ⟨?_, ?_, ?_⟩, ?_⟩
  · exact stage_after_eq_solved_iff hsteps
  · rw [← stage_after_eq_solved_iff hsteps]
    exact decide_eq_true_iff
  · rintro before step later rfl hsolving
    obtain ⟨⟨solution, hsettled⟩, hsame⟩ := isSettled_after isSound_empty hsteps hsolving
    exact ⟨hsame, fun files action hadding => perform_of_solved hsettled.solved files hadding⟩
  · rintro before step later rfl hsolving
    have hreaches : Reaches (fun _ => True) empty (empty.after before) :=
      Reaches.refl.after fun _ _ => trivial
    have hcanonical : (empty.after before).IsCanonical := hreaches.isCanonical isCanonical_empty
    obtain ⟨solution, hresult, hkept⟩ := hcanonical.solve
    have hfinal : (empty.after (before ++ step :: later)).solution = some solution := by
      rw [after_split]
      apply solution_after
      rw [after_of_isSolving before hsolving]
      exact hkept
    exact ⟨solution, hresult, solve_of_solution hfinal, answer_of_solution hfinal⟩

/-- Clauses without a model refuse even a file that is missing. An empty session that is opened
again keeps its empty model, with the clauses it takes. -/
theorem solved_once_and_opened_again :
    let files := (FileTree.mk [] []).toFiles
    let step := Step.mk files
    let unsatisfiable := empty.after [step (.addText ["A", "~A"]), step (.answer .json true),
      step (.addDimacs "missing.cnf")]
    let opened := empty.after [step .solve, step (.setStage .accepting),
      step (.addText ["A", "~A"])]
    unsatisfiable.stage = .solved ∧
    unsatisfiable.perform files (.addDimacs "missing.cnf") =
      (unsatisfiable, .fail (.solved "Solution found: cannot add new clauses.")) ∧
    opened.clauses = [[⟨0⟩], [⟨1⟩]] ∧
    opened.solve = (opened, .done (.model [] [])) := by
  intro files step unsatisfiable opened
  have hordinary := (solved_once [step (.addText ["A", "~A"]), step (.answer .json true),
    step (.addDimacs "missing.cnf")]).1 (by simp [step, Action.IsOrdinary])
  obtain ⟨hstage, -, hlater⟩ := hordinary
  refine ⟨?_, ?_, ?_, ?_⟩
  · exact hstage.2 ⟨step (.answer .json true), by simp, trivial⟩
  · exact (hlater [step (.addText ["A", "~A"])] _ _ rfl trivial).2 files _ trivial
  · decide +kernel
  · obtain ⟨solution, hresult, hsolve, -⟩ := (solved_once [step .solve,
      step (.setStage .accepting), step (.addText ["A", "~A"])]).2 [] _ _ rfl trivial
    have hempty : empty.solve.2.result = .ok (.model [] []) := by decide +kernel
    cases hempty.symm.trans hresult
    exact hsolve

end CnfSolver.Session
