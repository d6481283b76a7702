import CnfSolver.Session

/-!
# Benchmark directories

A benchmark is a directory with folders of DIMACS files. The files of a folder whose name starts
with `uf` are expected to have a model, and those of a folder whose name starts with `uuf` to have
none. Other entries do not matter.
-/

namespace CnfSolver.Benchmark

def startsWith (start name : String) : Bool := start.toList.isPrefixOf name.toList

def endsWith (ending name : String) : Bool := ending.toList.isSuffixOf name.toList

def sorted (names : List String) : List String := names.mergeSort fun a b => decide (a ≤ b)

def expected? (folder : String) : Option Bool :=
  if startsWith "uuf" folder then some false
  else if startsWith "uf" folder then some true
  else none

def isInstance (name : String) : Bool := endsWith ".cnf" name

/-- Solves one file, and logs the verdict if it is not the expected one. Gives the number of wrong
verdicts. -/
def solveFile (files : Files) (expected : Bool) (folder path name : String) : Transcript Nat :=
  let (s, added) := Session.empty.addDimacs files (joinPath path name)
  added.bind fun _ => s.solve.2.bind fun solution =>
    if solution.isModel = expected then .done 0
    else ⟨[], [.wrongVerdict folder name], .ok 1⟩

def solveFiles (files : Files) (expected : Bool) (folder path : String) :
    List String → Transcript Nat
  | [] => .done 0
  | name :: names =>
      (solveFile files expected folder path name).bind fun wrong =>
        (solveFiles files expected folder path names).bind fun more => .done (wrong + more)

/-- Solves the files of a folder, in order, and prints how many there are unless there are none. -/
def solveFolder (files : Files) (expected : Bool) (root folder : String) : Transcript Nat :=
  let path := joinPath root folder
  (Transcript.lift (files.list path)).bind fun listed =>
    let names := sorted (listed.filter isInstance)
    (solveFiles files expected folder path names).bind fun wrong =>
      if names.isEmpty then .done wrong
      else ⟨[.benchmark folder names.length], [], .ok wrong⟩

def solveFolders (files : Files) (root : String) : List String → Transcript Nat
  | [] => .done 0
  | folder :: folders =>
      match expected? folder with
      | none => solveFolders files root folders
      | some expected =>
          (solveFolder files expected root folder).bind fun wrong =>
            (solveFolders files root folders).bind fun more => .done (wrong + more)

def run (files : Files) (root : String) : Transcript Nat :=
  (Transcript.lift (files.list root)).bind fun listed =>
    (solveFolders files root (sorted listed)).bind fun wrong =>
      .done (if wrong = 0 then 0 else 1)

end CnfSolver.Benchmark
