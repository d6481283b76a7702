import CnfSolver.Proofs.Benchmark.Verdicts
import CnfSolver.Proofs.CommandLine.Outcome
import CnfSolver.Proofs.Options.Sources

/-!
# Benchmarks on the command line

A benchmark reports its wrong verdicts, and the command line gives its status. A directory that
cannot be listed and a file that is not taken end the benchmark, with the status 2 if that is
reported.
-/

namespace CnfSolver.CommandLine

open Benchmark (folders instances listed isFolder isInstance summary wrongVerdicts IsRight fault?)

variable {files : Files} {override : Option String} {o : Options} {root : String}

theorem run_bench (files : Files) (hroot : o.bench = some (some root)) (hne : root ≠ "") :
    run files o = Benchmark.run files root := by
  rw [run, hroot]
  exact if_pos hne

theorem run_nothing (files : Files) (hbench : o.bench.join.getD "" = "") (hclause : o.clause = [])
    (hinput : o.input = []) : run files o = ⟨[], [.nothingToSolve], .ok 2⟩ := by
  rw [run, hbench, hclause, hinput]
  rfl

theorem execute_of_fault {argv : List String} {e : Error} (hparse : Options.parse argv = .ok o)
    (hroot : o.bench = some (some root)) (hlevel : o.logLevel ≠ none ∨ override ≠ none)
    (hfault : fault? files root = some e) (hreported : e.isReported = true) :
    (execute files override o).status = .ok 2 := by
  have ho : o.IsExclusive := Options.isExclusive_of_parse hparse
  have hsome : o.bench ≠ none := by
    rw [hroot]
    exact Option.some_ne_none _
  cases hconfigure : Level.configure (o.logLevel.map Level.name) override with
  | error e' =>
      rw [(execute_of_no_level files hconfigure).2, exitStatus]
      rcases error_of_configure hconfigure with hreported' | ⟨hname, hoverride, -⟩
      · rw [if_pos hreported']
      · exact absurd (Option.map_eq_none_iff.1 hname) (hlevel.resolve_right (not_not.2 hoverride))
  | ok level =>
      rw [(execute_of_level files hconfigure).2]
      by_cases hne : root = ""
      · have hbench : o.bench.join.getD "" = "" := by
          rw [hroot, hne]
          rfl
        rw [run_nothing files hbench (ho.clause_or_bench.resolve_right hsome)
          (ho.input_or_bench.resolve_right hsome)]
        rfl
      · rw [run_bench files hroot hne, Benchmark.result_run_of_fault hfault, exitStatus,
          if_pos hreported]

/-- Folders and files come in order. If all can be listed and taken, the status is 0 if every file
is right and 1 if not; each file that is not is logged as an error, and no other error is; and each
folder with files has its number of files printed. If not, and the first fault is reported, the
command line gives the status 2. -/
theorem bench_verdicts (files : Files) (root : String) :
    ((folders files root).Perm ((listed files root).filter isFolder) ∧
      (folders files root).Pairwise (· ≤ ·)) ∧
    (∀ folder, (instances files root folder).Perm
        ((listed files (joinPath root folder)).filter isInstance) ∧
      (instances files root folder).Pairwise (· ≤ ·)) ∧
    (Benchmark.TakesAll files root →
      ((Benchmark.run files root).result = .ok 0 ↔ ∀ folder ∈ folders files root,
        ∀ name ∈ instances files root folder, IsRight files root folder name) ∧
      ((Benchmark.run files root).result = .ok 1 ↔ ∃ folder ∈ folders files root,
        ∃ name ∈ instances files root folder, ¬IsRight files root folder name) ∧
      (Benchmark.run files root).errors = (folders files root).flatMap (wrongVerdicts files root) ∧
      (Benchmark.run files root).output = (folders files root).flatMap (summary files root)) ∧
    ∀ e, fault? files root = some e → e.isReported = true →
      ∀ argv o override, Options.parse argv = .ok o → o.bench = some (some root) →
        o.logLevel ≠ none ∨ override ≠ none → (execute files override o).status = .ok 2 := by
  refine ⟨⟨?_, ?_⟩, fun folder => ⟨?_, ?_⟩, fun htakes => ?_, ?_⟩
  · exact (Benchmark.perm_sorted _).filter _
  · exact (Benchmark.pairwise_sorted _).filter _
  · exact Benchmark.perm_sorted _
  · exact Benchmark.pairwise_sorted _
  · obtain ⟨houtput, herrors, hresult⟩ :=
      Benchmark.run_of_no_fault (Benchmark.fault?_eq_none_iff.2 htakes)
    have hright : (folders files root).flatMap (wrongVerdicts files root) = [] ↔ _ :=
      Benchmark.flatMap_wrongVerdicts_eq_nil
    have hwrong : (∃ folder ∈ folders files root, ∃ name ∈ instances files root folder,
        ¬IsRight files root folder name) ↔
        ¬(folders files root).flatMap (wrongVerdicts files root) = [] := by
      rw [hright]
      push Not
      rfl
    rw [hresult, hwrong, ← hright, Except.ok.injEq, Except.ok.injEq]
    by_cases hnone : (folders files root).flatMap (wrongVerdicts files root) = []
    · rw [if_pos hnone]
      exact ⟨iff_of_true rfl hnone, iff_of_false (by decide) (not_not_intro hnone), herrors,
        houtput⟩
    · rw [if_neg hnone]
      exact ⟨iff_of_false (by decide) hnone, iff_of_true rfl hnone, herrors, houtput⟩
  · intro e hfault hreported argv o override hparse hroot hlevel
    exact execute_of_fault hparse hroot hlevel hfault hreported

/-- Two files of three are wrong, an empty folder is not summed up, and another one does not matter.
What should be a folder and is a file ends the benchmark. -/
theorem bench_verdicts_of_two_trees :
    let files := (FileTree.mk [(["b", "uuf", "x.cnf"], "1 0".toUTF8),
      (["b", "uf2", "z.cnf"], "1 0 -1 0".toUTF8), (["b", "uf2", "notes"], "x".toUTF8),
      (["b", "uf2", "a.cnf"], "1 -2 0 -1 -2 0".toUTF8), (["b", "fu", "x.cnf"], "x 0".toUTF8)]
      [["b", "uf0"]]).toFiles
    let broken := (FileTree.mk [(["b", "uf"], "1 0".toUTF8)] []).toFiles
    let o : Options := ⟨[], [], some (some "b"), some .string, false, some .warning⟩
    (Benchmark.run files "b").result = .ok 1 ∧
    (Benchmark.run files "b").errors =
      [.wrongVerdict "uf2" "z.cnf", .wrongVerdict "uuf" "x.cnf"] ∧
    (Benchmark.run files "b").output = [.benchmark "uf2" 2, .benchmark "uuf" 1] ∧
    Options.parse ["--bench", "b"] = .ok o ∧ (execute broken none o).status = .ok 2 := by
  intro files broken o
  have hroot : files.list "b" = .ok ["uuf", "uf2", "fu", "uf0"] := by decide +kernel
  have huuf : files.list (joinPath "b" "uuf") = .ok ["x.cnf"] := by decide +kernel
  have huf2 : files.list (joinPath "b" "uf2") = .ok ["z.cnf", "notes", "a.cnf"] := by
    decide +kernel
  have huf0 : files.list (joinPath "b" "uf0") = .ok [] := by decide +kernel
  have htakes : Benchmark.TakesAll files "b" := by
    refine ⟨_, hroot, ?_⟩
    simp only [List.forall_mem_cons, Files.Takes]
    refine ⟨fun _ => ⟨_, huuf, ?_⟩, fun _ => ⟨_, huf2, ?_⟩, fun h => absurd ?_ h,
      fun _ => ⟨_, huf0, ?_⟩, List.forall_mem_nil _⟩ <;> decide +kernel
  have hfolders : folders files "b" = ["uf0", "uf2", "uuf"] := by
    rw [folders, Benchmark.listed_of_list hroot,
      Benchmark.sorted_eq ["fu", "uf0", "uf2", "uuf"] (by decide +kernel)
        (by decide +kernel)]
    decide +kernel
  have hempty : instances files "b" "uf0" = [] := by
    rw [instances, Benchmark.listed_of_list huf0]
    exact Benchmark.sorted_eq _ (by decide +kernel) (by decide +kernel)
  have hsatisfiable : instances files "b" "uf2" = ["a.cnf", "z.cnf"] := by
    rw [instances, Benchmark.listed_of_list huf2]
    exact Benchmark.sorted_eq _ (by decide +kernel) (by decide +kernel)
  have hunsatisfiable : instances files "b" "uuf" = ["x.cnf"] := by
    rw [instances, Benchmark.listed_of_list huuf]
    exact Benchmark.sorted_eq _ (by decide +kernel) (by decide +kernel)
  obtain ⟨-, -, hrun, -⟩ := bench_verdicts files "b"
  obtain ⟨-, hone, herrors, houtput⟩ := hrun htakes
  refine ⟨?_, ?_, ?_, by decide +kernel, ?_⟩
  · rw [hone, hfolders]
    refine ⟨"uf2", by decide, "z.cnf", ?_, by decide +kernel⟩
    rw [hsatisfiable]
    decide
  · rw [herrors, hfolders]
    simp only [List.flatMap_cons, List.flatMap_nil, wrongVerdicts, hempty, hsatisfiable,
      hunsatisfiable]
    decide +kernel
  · rw [houtput, hfolders]
    simp only [List.flatMap_cons, List.flatMap_nil, summary, hempty, hsatisfiable, hunsatisfiable]
    rfl
  · have hlist : broken.list "b" = .ok ["uf"] := by decide +kernel
    have hfault : fault? broken "b" = some (.file .notDirectory "b/uf") := by
      rw [fault?, hlist, folders, Benchmark.listed_of_list hlist,
        Benchmark.sorted_eq ["uf"] (by decide +kernel) (by decide +kernel)]
      decide +kernel
    exact (bench_verdicts broken "b").2.2.2 _ hfault rfl ["--bench", "b"] o none (by decide +kernel)
      rfl (.inl (by decide))

end CnfSolver.CommandLine
