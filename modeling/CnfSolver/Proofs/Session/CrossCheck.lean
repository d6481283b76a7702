import CnfSolver.Proofs.Session.Solve
import CnfSolver.Proofs.TruthTable

/-!
# The check against the truth table

A search that branches on variable 0 first and a table that counts variable 0 in its lowest bit find
their models in different orders, but they agree on whether there is one. So an answer is the same
with and without the check, and the clauses of a session never make the table fail.
-/

namespace CnfSolver.Session

variable {s : Session} {solution : Solution}

/-! ## The table of a session -/

theorem confirms_of_solves (hs : s.IsSound) (hsolves : solution.Solves s.names s.clauses) :
    (s.confirms solution).output = [] ∧ (s.confirms solution).result = .ok true := by
  by_cases hn : s.names.length ≤ TruthTable.limit
  · obtain ⟨row, hrow, hmodel⟩ := TruthTable.firstRow_spec hn hs.wellFormed
    have hagree : row.isSome = solution.isModel := by
      rw [Bool.eq_iff_iff, hmodel]
      exact hsolves.isModel_iff.symm
    have hconfirms : s.confirms solution = .done true := by
      simp only [confirms, hrow]
      rw [if_pos hagree]
    rw [hconfirms]
    exact ⟨rfl, rfl⟩
  · have hlimit : TruthTable.limit < s.names.length := Nat.lt_of_not_le hn
    have hrow : TruthTable.firstRow s.names.length s.clauses =
        .error (.tooManyVariables s.names.length TruthTable.limit) := by
      rw [TruthTable.firstRow, if_pos hlimit]
    have hconfirms : s.confirms solution =
        ⟨[], [.checkSkipped (.tooManyVariables s.names.length TruthTable.limit)], .ok true⟩ := by
      simp only [confirms, hrow]
    rw [hconfirms]
    exact ⟨rfl, rfl⟩

theorem firstRow_eq_none_iff {n : Nat} {cs : List Clause} (hn : n ≤ TruthTable.limit)
    (hcs : ∀ c ∈ cs, c.WellFormed n) :
    ∃ row, TruthTable.firstRow n cs = .ok row ∧
      (row = none ↔ (Search.firstModel n cs).result = .ok none) := by
  obtain ⟨row, hrow, hmodel⟩ := TruthTable.firstRow_spec hn hcs
  refine ⟨row, hrow, ?_⟩
  rw [← Option.not_isSome_iff_eq_none, hmodel]
  rcases Search.firstModel_cases hcs with ⟨m, hm, hleast⟩ | ⟨hnone, hno⟩
  · have hex : ∃ m, Assignment.IsModel n cs m := ⟨m, hleast.toIsModel⟩
    rw [hm]
    exact ⟨fun h => absurd hex h, fun h => (nomatch h)⟩
  · rw [hnone]
    exact ⟨fun _ => rfl, fun _ => hno⟩

/-! ## Reports -/

/-- What a report prints once the solution is confirmed, or not to be checked. -/
theorem report_of_confirmed (format : Format) (check : Bool)
    (hconfirmed : (s.confirms solution).output = [] ∧ (s.confirms solution).result = .ok true) :
    (s.report solution format check).output =
        [.line (if solution.isModel then solution.render format else "UNSAT")] ∧
      (s.report solution format check).result = .ok (if solution.isModel then 0 else 1) := by
  have hverdict : (s.report solution format false).output =
        [.line (if solution.isModel then solution.render format else "UNSAT")] ∧
      (s.report solution format false).result = .ok (if solution.isModel then 0 else 1) := by
    simp only [report]
    cases solution.isModel with
    | false => exact ⟨rfl, rfl⟩
    | true => exact ⟨rfl, rfl⟩
  cases check with
  | false => exact hverdict
  | true =>
      -- the report is what follows the confirmation, which prints nothing
      change ((s.confirms solution).bind _).output = _ ∧ ((s.confirms solution).bind _).result = _
      rw [Transcript.bind_of_ok hconfirmed.2, hconfirmed.1]
      exact hverdict

theorem answer_eq (s : Session) (format : Format) (check : Bool) :
    s.answer format check =
      (s.solve.1, s.solve.2.bind fun solution => s.solve.1.report solution format check) := rfl

theorem IsSound.answer (hs : s.IsSound) (format : Format) :
    ∃ solution, solution.Solves s.names s.clauses ∧ ∀ check,
      (s.answer format check).1 = { s with solution := some solution, stage := .solved } ∧
      (s.answer format check).2.output =
        [.line (if solution.isModel then solution.render format else "UNSAT")] ∧
      (s.answer format check).2.result = .ok (if solution.isModel then 0 else 1) := by
  obtain ⟨solution, hresult, hsolves, hsession⟩ := hs.solve
  refine ⟨solution, hsolves, fun check => ?_⟩
  have hsolved : s.solve.1.IsSound := hs.isSound_solve
  have hkept : solution.Solves s.solve.1.names s.solve.1.clauses := by
    rw [hsession]
    exact hsolves
  have hreport := report_of_confirmed format check (confirms_of_solves hsolved hkept)
  rw [answer_eq, Transcript.bind_of_ok hresult, (isQuiet_solve s).output]
  exact ⟨hsession, hreport⟩

/-- After every history in which the stage is not set by hand, an answer is the same with and
without the check, and the check never fails. The table and the search agree. -/
theorem answer_check_eq (h : Reaches Action.IsOrdinary .empty s) (format : Format) :
    (s.answer format true).1 = (s.answer format false).1 ∧
    (s.answer format true).2.output = (s.answer format false).2.output ∧
    (s.answer format true).2.result = (s.answer format false).2.result ∧
    (∃ status, (s.answer format true).2.result = .ok status ∧ status ≠ 2) ∧
    (s.names.length ≤ 20 → ∃ row, TruthTable.firstRow s.names.length s.clauses = .ok row ∧
      (row = none ↔ (Search.firstModel s.names.length s.clauses).result = .ok none)) := by
  have hs : s.IsSound := h.isSound isSound_empty
  obtain ⟨solution, -, hanswer⟩ := hs.answer format
  obtain ⟨hsession, houtput, hresult⟩ := hanswer true
  obtain ⟨hsession', houtput', hresult'⟩ := hanswer false
  refine ⟨hsession.trans hsession'.symm, houtput.trans houtput'.symm,
    hresult.trans hresult'.symm, ⟨_, hresult, ?_⟩, fun hn => ?_⟩
  · split <;> decide
  · exact firstRow_eq_none_iff hn hs.wellFormed

/-- The session is solved and asked once already, and refuses two batches. -/
theorem answer_check_eq_after_solving :
    let files := (FileTree.mk [] []).toFiles
    let s := empty.performAll files
      [.addText ["A ~B"], .addText ["~"], .addClauses [[⟨1⟩]], .solve, .answer .json true,
        .addText ["B"]]
    (s.answer .string false).2.output = [.line "\x7bA = 0, B = 0\x7d"] ∧
      (s.answer .string true).2.output = (s.answer .string false).2.output ∧
      ∃ status, (s.answer .string true).2.result = .ok status ∧ status ≠ 2 := by
  intro files s
  have hreaches : Reaches Action.IsOrdinary .empty s :=
    .perform (.perform (.perform (.perform (.perform (.perform .refl files _ trivial)
      files _ trivial) files _ trivial) files _ trivial) files _ trivial) files _ trivial
  have hprinted : (s.answer .string false).2.output = [.line "\x7bA = 0, B = 0\x7d"] := by
    decide +kernel
  obtain ⟨-, houtput, -, hstatus, -⟩ := answer_check_eq hreaches .string
  exact ⟨hprinted, houtput, hstatus⟩

end CnfSolver.Session
