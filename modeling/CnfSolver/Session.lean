import CnfSolver.Dimacs
import CnfSolver.NameTable
import CnfSolver.Search
import CnfSolver.Solution
import CnfSolver.TruthTable

/-!
# Sessions

A session collects clauses and solves them once. Clauses come in batches, and a batch is taken over
as a whole or not at all. After the first `solve` the session is solved: it takes no more clauses
and every further `solve` gives the same solution.
-/

namespace CnfSolver

inductive Stage where
  | accepting
  | solved
  deriving DecidableEq, Repr

namespace Stage

def all : List Stage := [accepting, solved]

def name : Stage → String
  | accepting => "accepting"
  | solved => "solved"

def ofName? (s : String) : Option Stage := all.find? fun stage => stage.name == s

end Stage

structure Session where
  table : NameTable
  clauses : List Clause
  solution : Option Solution
  stage : Stage
  deriving DecidableEq, Repr

namespace Session

def empty : Session := ⟨.empty, [], none, .accepting⟩

def names (s : Session) : List String := s.table.names

def isSolved (s : Session) : Bool := s.stage = .solved

def checkLiterals (n : Nat) : Clause → Except Error Unit
  | [] => .ok ()
  | l :: ls =>
      if 0 ≤ l.code ∧ l.code < 2 * n then checkLiterals n ls
      else .error (.literalRange l.code n)

def checkClauses (n : Nat) : List Clause → Except Error Unit
  | [] => .ok ()
  | c :: cs =>
      if c.isEmpty then .error (.emptyClause "cannot add an empty clause")
      else
        match checkLiterals n c with
        | .error e => .error e
        | .ok () => checkClauses n cs

/-- Takes over a table and the clauses that were encoded with it, once they are all checked. -/
def commit (s : Session) (table : NameTable) (clauses : List Clause) :
    Session × Except Error Unit :=
  match checkClauses table.size clauses with
  | .error e => (s, .error e)
  | .ok () => ({ s with table, clauses := s.clauses ++ clauses }, .ok ())

def commitEncoded (s : Session) :
    NameTable × Except Error (List Clause) → Session × Except Error Unit
  | (_, .error e) => (s, .error e)
  | (table, .ok clauses) => s.commit table clauses

/-- Adds clauses unless the session is solved, in which case nothing is looked at. -/
def whenAccepting (s : Session) (add : Unit → Session × Transcript Unit) :
    Session × Transcript Unit :=
  match s.stage with
  | .accepting => add ()
  | .solved => (s, .fail (.solved "Solution found: cannot add new clauses."))

/-- Adds clauses of signed names, of which the first that is an error ends them. -/
def addNames (s : Session) (clauses : List (List (Except Error SignedName))) :
    Session × Transcript Unit :=
  s.whenAccepting fun _ =>
    let (s, result) := s.commitEncoded (s.table.encodeAll clauses)
    (s, .lift result)

def addText (s : Session) (lines : List String) : Session × Transcript Unit :=
  s.addNames (lines.map NameTable.lineNames)

def addDimacs (files : Files) (s : Session) (path : String) : Session × Transcript Unit :=
  s.whenAccepting fun _ =>
    let loaded := Dimacs.load files path
    match loaded.result with
    | .error e => (s, { loaded with result := .error e })
    | .ok clauses =>
        let (s, result) := s.commitEncoded (s.table.encodeIntegers clauses)
        (s, { loaded with result })

def addClauses (s : Session) (clauses : List Clause) : Session × Transcript Unit :=
  s.whenAccepting fun _ =>
    let (s, result) := s.commit s.table clauses
    (s, .lift result)

def solutionOf (names : List String) (clauses : List Clause) : Transcript Solution :=
  (Search.firstModel names.length clauses).bind fun model? =>
    .done (match model? with
      | some model => .model names model
      | none => .unsatisfiable)

def solve (s : Session) : Session × Transcript Solution :=
  match s.solution with
  | some solution => (s, .done solution)
  | none =>
      let found : Transcript Solution := do
        Transcript.log (.solving s.clauses.length s.names.length)
        let solution ← solutionOf s.names s.clauses
        Transcript.log (.verdict solution.isModel)
        return solution
      match found.result with
      | .ok solution => ({ s with solution, stage := .solved }, found)
      | .error _ => (s, found)

/-- Whether the truth table confirms that a solution exists, or that none does. With too many
variables for a table it cannot object. -/
def confirms (s : Session) (solution : Solution) : Transcript Bool :=
  match TruthTable.firstRow s.names.length s.clauses with
  | .ok row =>
      if row.isSome = solution.isModel then .done true
      else ⟨[], [.checkDisagrees row.isSome], .ok false⟩
  | .error (.tooManyVariables count limit) =>
      ⟨[], [.checkSkipped (.tooManyVariables count limit)], .ok true⟩
  | .error e => .fail e

/-- Prints a solution, checked if asked for, and gives the exit status: 0 for a model, 1 for none,
and 2 for a failed check. -/
def report (s : Session) (solution : Solution) (format : Format) (check : Bool) :
    Transcript Nat := do
  let confirmed ← if check then s.confirms solution else Transcript.done true
  if confirmed then
    if solution.isModel then
      Transcript.print (.line (solution.render format))
      return 0
    else
      Transcript.print (.line "UNSAT")
      return 1
  else
    return 2

def answer (s : Session) (format : Format) (check : Bool) : Session × Transcript Nat :=
  let (s, solved) := s.solve
  (s, solved.bind fun solution => s.report solution format check)

/-! ## Histories -/

inductive Action where
  | addText (lines : List String)
  | addDimacs (path : String)
  | addClauses (clauses : List Clause)
  | solve
  | answer (format : Format) (check : Bool)
  /-- Sets the stage and nothing else, so that a solved session can be opened again. -/
  | setStage (stage : Stage)
  deriving DecidableEq, Repr

inductive Reply where
  | none
  | solution (s : Solution)
  | status (n : Nat)
  deriving DecidableEq, Repr

def perform (files : Files) (s : Session) : Action → Session × Transcript Reply
  | .addText lines =>
      let (s, t) := s.addText lines
      (s, t.bind fun _ => .done .none)
  | .addDimacs path =>
      let (s, t) := s.addDimacs files path
      (s, t.bind fun _ => .done .none)
  | .addClauses clauses =>
      let (s, t) := s.addClauses clauses
      (s, t.bind fun _ => .done .none)
  | .solve =>
      let (s, t) := s.solve
      (s, t.bind fun solution => .done (.solution solution))
  | .answer format check =>
      let (s, t) := s.answer format check
      (s, t.bind fun status => .done (.status status))
  | .setStage stage => ({ s with stage }, .done .none)

def performAll (files : Files) (s : Session) (actions : List Action) : Session :=
  actions.foldl (fun s action => (s.perform files action).1) s

end Session

end CnfSolver
