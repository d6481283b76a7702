import CnfSolver.Benchmark
import CnfSolver.Options

/-!
# The command line

Clauses come from one source: a benchmark directory, texts, or DIMACS files. The exit status is 0 if
every formula has a model, 1 if one has none, and 2 after an error.
-/

namespace CnfSolver.CommandLine

/-- Solves the files in order, up to the first that cannot be read, and gives the worst status. With
labels, each answer follows the name of its file. -/
def solveFiles (files : Files) (o : Options) (labelled : Bool) :
    List (Option String) → Nat → Transcript Nat
  | [], status => .done status
  | none :: _, _ => .fail .missingPath
  | some name :: names, status =>
      let (s, added) := Session.empty.addDimacs files name
      added.bind fun _ =>
        Transcript.bind (if labelled then .print (.label name) else .done ()) fun _ =>
          (s.answer (o.format.getD .string) o.check).2.bind fun answered =>
            solveFiles files o labelled names (max status answered)

def textNames : Option String → List (Except Error SignedName)
  | some line => NameTable.lineNames line
  | none => [.error .missingText]

def solveTexts (o : Options) (texts : List (Option String)) : Transcript Nat :=
  let (s, added) := Session.empty.addNames (texts.map textNames)
  added.bind fun _ => (s.answer (o.format.getD .string) o.check).2

/-- Solves the source that the options name. A benchmark directory that is left out or empty is
none. -/
def run (files : Files) (o : Options) : Transcript Nat :=
  let bench := o.bench.join.getD ""
  if bench ≠ "" then Benchmark.run files bench
  else if !o.clause.isEmpty then solveTexts o o.clause
  else if o.input.isEmpty then ⟨[], [.nothingToSolve], .ok 2⟩
  else solveFiles files o (1 < o.input.length) o.input 0

/-- Logs an error that is to be reported, and turns it into the status 2. -/
def reporting (t : Transcript Nat) : Transcript Nat :=
  match t.result with
  | .ok _ => t
  | .error e =>
      if e.isReported then ⟨t.output, t.events ++ [.failed e], .ok 2⟩ else t

structure Outcome where
  output : List Piece
  /-- The log, as text. -/
  log : String
  status : Except Error Nat

def logText (level : Level) (events : List Event) : String :=
  let shown := events.filter fun e => level.rank ≤ e.level.rank
  String.join (shown.map fun e => e.line ++ "\n")

/-- Runs the command line, where `override` is the log level that the environment sets. A level that
is unknown is reported before there is a log, so its message stands alone. -/
def execute (files : Files) (override : Option String) (o : Options) : Outcome :=
  match Level.configure (o.logLevel.map Level.name) override with
  | .error e => if e.isReported then ⟨[], e.message ++ "\n", .ok 2⟩ else ⟨[], "", .error e⟩
  | .ok level =>
      let t := reporting (run files o)
      ⟨t.output, logText level t.events, t.result⟩

end CnfSolver.CommandLine
