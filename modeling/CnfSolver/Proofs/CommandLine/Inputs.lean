import CnfSolver.Proofs.CommandLine.Outcome
import CnfSolver.Proofs.Options.Sources
import CnfSolver.Proofs.Session.Files

/-!
# Files on the command line

Each file is a formula of its own and has its own line, behind the name of the file if there are
several. The first file that holds no clauses ends the run with the status 2, and otherwise the
status is 0 if and only if every formula has a model.
-/

namespace CnfSolver.CommandLine

open Formula (ofIntegers)

variable {files : Files} {o : Options} {labelled : Bool} {name : String} {names : List String}

/-! ## One file -/

theorem run_inputs (files : Files) (hbench : o.bench.join.getD "" = "") (hclause : o.clause = [])
    (hne : o.input ≠ []) : run files o = solveFiles files o (1 < o.input.length) o.input 0 := by
  rw [run, hbench, hclause, List.isEmpty_eq_false_iff.2 hne]
  rfl

end CnfSolver.CommandLine
