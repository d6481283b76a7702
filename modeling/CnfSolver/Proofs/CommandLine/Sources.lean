import CnfSolver.Proofs.CommandLine.Benchmarks
import CnfSolver.Proofs.CommandLine.Inputs
import CnfSolver.Proofs.CommandLine.Texts

/-!
# Sources on the command line

The sources are tested in a fixed order, and the first that is there is solved. Since no other one
can be there beside it, nothing that is given is passed over.
-/

namespace CnfSolver.CommandLine

open Options (MadeBy IsAllowed collected given LeavesOut)

/-- Options that are read from a command line hold all that it gives, with one kind of source at
most, and that source is the one that is solved. There is a format and a level unless an argument
leaves them out. -/
theorem sources_of_parse {argv : List String} {o : Options} (h : Options.parse argv = .ok o) :
    (∃ settings, MadeBy argv settings ∧ IsAllowed settings ∧ o = collected settings) ∧
    o.IsExclusive ∧
    (o.format = none → ∃ text ∈ argv, LeavesOut .format text.toList) ∧
    (o.logLevel = none → ∃ text ∈ argv, LeavesOut .logLevel text.toList) ∧
    ∀ files : Files,
      (∀ root, o.bench = some (some root) → root ≠ "" → run files o = Benchmark.run files root) ∧
      (o.bench ≠ none → o.bench.join.getD "" = "" →
        run files o = ⟨[], [.nothingToSolve], .ok 2⟩) ∧
      (o.clause ≠ [] → run files o = solveTexts o o.clause) ∧
      (o.input ≠ [] → run files o = solveFiles files o (1 < o.input.length) o.input 0) := by
  have ho : o.IsExclusive := Options.isExclusive_of_parse h
  obtain ⟨settings, hmade, hallowed, hcollected⟩ := Options.parse_eq_ok_iff.1 h
  refine ⟨⟨settings, hmade, hallowed, hcollected⟩, ho, fun hformat => ?_, fun hlevel => ?_,
    fun files => ⟨fun root => run_bench files, fun hbench hempty => ?_, fun hclause => ?_,
      fun hinput => ?_⟩⟩
  · rw [hcollected] at hformat
    have hnone := Options.none_mem_of_chosen hallowed.formats hformat
    exact Options.exists_leavesOut hmade hallowed rfl hnone
  · rw [hcollected] at hlevel
    have hnone := Options.none_mem_of_chosen hallowed.levels hlevel
    exact Options.exists_leavesOut hmade hallowed rfl hnone
  · exact run_nothing files hempty (ho.clause_or_bench.resolve_right hbench)
      (ho.input_or_bench.resolve_right hbench)
  · have hbench : o.bench = none := ho.clause_or_bench.resolve_left hclause
    exact run_texts files (by rw [hbench]; rfl) hclause
  · have hbench : o.bench = none := ho.input_or_bench.resolve_left hinput
    exact run_inputs files (by rw [hbench]; rfl) (ho.input_or_clause.resolve_left hinput) hinput

/-- One of the sources is given in four spellings, and the last value of the format is left out. -/
theorem sources_of_parse_of_one_kind :
    let argv := ["-c", "A", "--cl=~B", "-l", "Info", "--clause", "C", "-fjson", "-cA ~C",
      "--form=--"]
    let o : Options := ⟨[], [some "A", some "~B", some "C", some "A ~C"], none, none, false,
      some .info⟩
    Options.parse argv = .ok o ∧ (∃ text ∈ argv, LeavesOut .format text.toList) ∧
      ∀ files, run files o = solveTexts o [some "A", some "~B", some "C", some "A ~C"] := by
  intro argv o
  have hparse : Options.parse argv = .ok o := by decide +kernel
  obtain ⟨-, -, hformat, -, hrun⟩ := sources_of_parse hparse
  exact ⟨hparse, hformat rfl, fun files => (hrun files).2.2.1 (by decide)⟩

/-- A format is left out, and the command line is accepted without one. -/
theorem parse_without_format :
    ∃ o, Options.parse ["-f=--"] = .ok o ∧ o.format = none := by
  exact ⟨⟨[], [], none, none, false, some .warning⟩, by decide +kernel, rfl⟩

end CnfSolver.CommandLine
