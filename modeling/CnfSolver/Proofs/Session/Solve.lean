import CnfSolver.Proofs.Session.History

/-!
# Solving a session

Adding only clauses on the variables that it knows, a session keeps its clauses such that a search
cannot run into an error. So the first solve succeeds, with the least model of the clauses or with
none if there is none, and every later one gives the same solution.
-/

namespace CnfSolver

open Assignment (IsModel IsLeastModel)

inductive Solution.Solves (names : List String) (cs : List Clause) : Solution → Prop
  | model {m : Assignment} (h : m.IsLeastModel names.length cs) : Solves names cs (.model names m)
  | unsatisfiable (h : ¬∃ m, IsModel names.length cs m) : Solves names cs .unsatisfiable

namespace Solution.Solves

variable {names : List String} {cs : List Clause} {solution : Solution}

theorem isModel_iff (h : solution.Solves names cs) :
    solution.isModel = true ↔ ∃ m, IsModel names.length cs m := by
  cases h with
  | model h => exact ⟨fun _ => ⟨_, h.toIsModel⟩, fun _ => rfl⟩
  | unsatisfiable h => exact ⟨fun hmodel => (nomatch hmodel), fun hex => absurd hex h⟩

end Solution.Solves

namespace Session

/-- The clauses are on the session's variables, and a solution that it has solves them. -/
structure IsSound (s : Session) : Prop where
  wellFormed : ∀ c ∈ s.clauses, c.WellFormed s.names.length
  solved : ∀ solution, s.solution = some solution →
    s.stage = .solved ∧ solution.Solves s.names s.clauses

variable {s s' : Session}

theorem isSound_empty : IsSound .empty where
  wellFormed _ hc := absurd hc List.not_mem_nil
  solved _ h := nomatch h

theorem IsSound.adds (hs : s.IsSound) (h : s.Adds s') : s'.IsSound := by
  cases h with
  | nothing => exact hs
  | @batch table clauses haccepting hnames hclauses =>
      refine ⟨?_, ?_⟩
      · intro c hc
        rcases List.mem_append.1 hc with hc | hc
        · exact (hs.wellFormed c hc).mono hnames.length_le
        · exact hclauses c hc
      · intro solution hsolution
        have hstage := (hs.solved solution hsolution).1
        rw [haccepting] at hstage
        exact nomatch hstage

/-! ## The solution of a list of clauses -/

theorem solutionOf_spec {names : List String} {cs : List Clause}
    (hcs : ∀ c ∈ cs, c.WellFormed names.length) :
    ∃ solution, (solutionOf names cs).result = .ok solution ∧ solution.Solves names cs := by
  rcases Search.firstModel_cases hcs with ⟨m, hm, hleast⟩ | ⟨hnone, hno⟩
  · refine ⟨.model names m, ?_, .model hleast⟩
    rw [solutionOf, Transcript.result_bind_of_ok hm]
    rfl
  · refine ⟨.unsatisfiable, ?_, .unsatisfiable hno⟩
    rw [solutionOf, Transcript.result_bind_of_ok hnone]
    rfl

theorem isQuiet_solutionOf (names : List String) (cs : List Clause) :
    (solutionOf names cs).IsQuiet :=
  (Search.isQuiet_firstModel _ _).bind fun _ => ⟨rfl, rfl⟩

theorem solve_of_solution {solution : Solution} (h : s.solution = some solution) :
    s.solve = (s, .done solution) := by
  rw [solve, h]

theorem solve_of_solution_eq_none (hnone : s.solution = none) {solution : Solution}
    (h : (solutionOf s.names s.clauses).result = .ok solution) :
    s.solve.1 = { s with solution := some solution, stage := .solved } ∧
      s.solve.2.result = .ok solution := by
  have hfound : (do
      Transcript.log (.solving s.clauses.length s.names.length)
      let solution ← solutionOf s.names s.clauses
      Transcript.log (.verdict solution.isModel)
      return solution).result = .ok solution := by
    change (Transcript.bind _ fun _ => Transcript.bind _ fun _ => Transcript.bind _ _).result = _
    rw [Transcript.result_bind_of_ok rfl, Transcript.result_bind_of_ok h,
      Transcript.result_bind_of_ok rfl]
    rfl
  rw [solve, hnone]
  simp only [hfound]
  exact ⟨trivial, trivial⟩

theorem isQuiet_solve (s : Session) : s.solve.2.IsQuiet := by
  unfold solve
  split
  · exact ⟨rfl, rfl⟩
  · simp only
    split <;>
      · dsimp only
        refine (Transcript.isQuiet_log (by simp [Event.level])).bind fun _ => ?_
        refine (isQuiet_solutionOf _ _).bind fun solution => ?_
        exact (Transcript.isQuiet_log (by simp [Event.level])).bind fun _ => ⟨rfl, rfl⟩

/-- Solving a sound session succeeds and leaves it solved, with the solution of its clauses. -/
theorem IsSound.solve (hs : s.IsSound) :
    ∃ solution, s.solve.2.result = .ok solution ∧ solution.Solves s.names s.clauses ∧
      s.solve.1 = { s with solution := some solution, stage := .solved } := by
  cases hsolution : s.solution with
  | some solution =>
      obtain ⟨hstage, hsolves⟩ := hs.solved solution hsolution
      rw [solve_of_solution hsolution]
      refine ⟨solution, rfl, hsolves, ?_⟩
      rw [← hsolution, ← hstage]
  | none =>
      obtain ⟨solution, hresult, hsolves⟩ := solutionOf_spec hs.wellFormed
      obtain ⟨hsession, hok⟩ := solve_of_solution_eq_none hsolution hresult
      exact ⟨solution, hok, hsolves, hsession⟩

theorem IsSound.isSound_solve (hs : s.IsSound) : s.solve.1.IsSound := by
  obtain ⟨solution, -, hsolves, hsession⟩ := hs.solve
  rw [hsession]
  refine ⟨hs.wellFormed, ?_⟩
  rintro _ ⟨⟩
  exact ⟨rfl, hsolves⟩

/-! ## Histories -/

theorem IsSound.perform (hs : s.IsSound) (files : Files) {action : Action}
    (h : action.IsOrdinary) : (s.perform files action).1.IsSound := by
  by_cases hadding : action.IsAdding
  · exact hs.adds (adds_perform s files hadding)
  · cases action with
    | solve | answer => exact hs.isSound_solve
    | setStage => exact h.elim
    | _ => exact absurd trivial hadding

theorem Reaches.isSound (hs : s.IsSound) (h : Reaches Action.IsOrdinary s s') : s'.IsSound := by
  induction h with
  | refl => exact hs
  | perform _ files action hallowed ih => exact ih.perform files hallowed

theorem Reaches.mono {allowed allowed' : Action → Prop}
    (hmono : ∀ action, allowed action → allowed' action) (h : Reaches allowed s s') :
    Reaches allowed' s s' := by
  induction h with
  | refl => exact .refl
  | perform _ files action hallowed ih => exact ih.perform files action (hmono action hallowed)

theorem Action.IsAdding.isOrdinary {action : Action} (h : action.IsAdding) :
    action.IsOrdinary := by
  cases action with
  | setStage stage => exact h.elim
  | _ => trivial

/-- After any batches of clauses, accepted or not, solving succeeds: with the least model, in the
order of the variables, just when there is a model at all, and with none otherwise. -/
theorem solve_of_reaches (h : Reaches Action.IsAdding .empty s) :
    ((∃ m, s.solve.2.result = .ok (.model s.names m)) ↔
      ∃ m, IsModel s.names.length s.clauses m) ∧
    (∀ m, s.solve.2.result = .ok (.model s.names m) →
      IsLeastModel s.names.length s.clauses m) ∧
    ((¬∃ m, IsModel s.names.length s.clauses m) → s.solve.2.result = .ok .unsatisfiable) := by
  have hs : s.IsSound := (h.mono fun _ => Action.IsAdding.isOrdinary).isSound isSound_empty
  obtain ⟨solution, hresult, hsolves, -⟩ := hs.solve
  rw [hresult]
  cases hsolves with
  | model hleast =>
      refine ⟨⟨fun _ => ⟨_, hleast.toIsModel⟩, fun _ => ⟨_, rfl⟩⟩, ?_, ?_⟩
      · rintro m ⟨⟩
        exact hleast
      · exact fun hno => absurd ⟨_, hleast.toIsModel⟩ hno
  | unsatisfiable hno =>
      refine ⟨⟨?_, fun hex => absurd hex hno⟩, ?_, fun _ => rfl⟩
      · rintro ⟨m, ⟨⟩⟩
      · rintro m ⟨⟩

/-- Two of four batches are rejected. -/
theorem solve_of_reaches_after_rejections :
    let files := (FileTree.mk [(["f.cnf"], "1 -2 0".toUTF8)] []).toFiles
    let s := empty.performAll files
      [.addDimacs "f.cnf", .addText ["C", "~"], .addDimacs "g.cnf", .addClauses [[⟨1⟩]]]
    s.names = ["1", "2"] ∧ s.clauses = [[⟨0⟩, ⟨3⟩], [⟨1⟩]] ∧
      s.solve.2.result = .ok (.model s.names [some 0, some 0]) ∧
      IsLeastModel s.names.length s.clauses [some 0, some 0] := by
  intro files s
  have hreaches : Reaches Action.IsAdding .empty s :=
    .perform (.perform (.perform (.perform .refl files _ trivial) files _ trivial) files _ trivial)
      files _ trivial
  have hresult : s.solve.2.result = .ok (.model s.names [some 0, some 0]) := by decide +kernel
  exact ⟨by decide +kernel, by decide +kernel, hresult, (solve_of_reaches hreaches).2.1 _ hresult⟩

end Session

end CnfSolver
