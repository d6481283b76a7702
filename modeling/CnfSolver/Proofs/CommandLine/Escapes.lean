import CnfSolver.Proofs.CommandLine.Benchmarks
import CnfSolver.Proofs.CommandLine.Inputs
import CnfSolver.Proofs.CommandLine.Texts

/-!
# Errors that escape

The command line ends with the status 0 or 1 only if it takes all that is given. Otherwise the
status is 2, or an error escapes: it is not reported that a path holds the character NUL, that a
file is no text as far as it is read, or that a value is left out.
-/

namespace CnfSolver.CommandLine

inductive Visits (o : Options) : String → Prop
  | input {path : String} (h : some path ∈ o.input) : Visits o path
  | bench {root path : String} (hbench : o.bench = some (some root))
      (h : Benchmark.Visits root path) : Visits o path

inductive Escapes (t : FileTree) (override : Option String) (o : Options) : Error → Prop
  | path {path : String} {e : Error} (hpath : Visits o path) (h : t.Escapes path e) :
      Escapes t override o e
  | missingInput (h : none ∈ o.input) : Escapes t override o .missingPath
  | missingClause (h : none ∈ o.clause) : Escapes t override o .missingText
  | missingLevel (h : o.logLevel = none) (hoverride : override = none) :
      Escapes t override o .missingText

structure TakesAll (files : Files) (o : Options) : Prop where
  bench : ∀ root, o.bench = some (some root) → root ≠ "" → Benchmark.TakesAll files root
  clause : ∀ text? ∈ o.clause, ∃ text, text? = some text ∧ ¬IsFaulty text
  input : ∀ path? ∈ o.input, ∃ path, path? = some path ∧ files.Takes path

variable {t : FileTree} {override : Option String} {o : Options} {e : Error}

/-! ## Files -/

end CnfSolver.CommandLine
