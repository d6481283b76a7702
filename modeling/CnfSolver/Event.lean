import CnfSolver.Error
import CnfSolver.Text.Characters

/-!
# Log

What happens on the way is recorded as events. Each has a level, and the log shows those at or above
the level that is set.
-/

namespace CnfSolver

inductive Level where
  | debug
  | info
  | warning
  | error
  | critical
  deriving DecidableEq, Repr

namespace Level

def default : Level := warning

def all : List Level := [debug, info, warning, error, critical]

def name : Level → String
  | debug => "DEBUG"
  | info => "INFO"
  | warning => "WARNING"
  | error => "ERROR"
  | critical => "CRITICAL"

def rank : Level → Nat
  | debug => 0
  | info => 1
  | warning => 2
  | error => 3
  | critical => 4

def ofName? (s : String) : Option Level := all.find? fun level => level.name == s

def read (name : String) : Except Error Level :=
  let wanted := Text.upper name
  match ofName? wanted with
  | some level => .ok level
  | none =>
      let names := ", ".intercalate (all.map Level.name)
      .error (.badSetting s!"unknown log level {Text.quoted wanted}, expected one of {names}")

/-- The level to log at, where `override`, if there is one, stands in for `name`. -/
def configure (name override : Option String) : Except Error Level :=
  match override.or name with
  | some wanted => read wanted
  | none => .error .missingText

end Level

inductive Event where
  | watching (clauses slots : Nat)
  | modelFound (conflicts : Nat)
  | exhausted (conflicts : Nat)
  /-- A file has a header line. -/
  | header (path line : String)
  | solving (clauses names : Nat)
  | verdict (satisfiable : Bool)
  | checkSkipped (reason : Error)
  | checkDisagrees (expected : Bool)
  | wrongVerdict (directory file : String)
  | nothingToSolve
  | failed (error : Error)
  deriving DecidableEq, Repr

namespace Event

def level : Event → Level
  | watching .. | modelFound _ | exhausted _ => .debug
  | header .. | solving .. | verdict _ => .info
  | checkSkipped _ => .warning
  | checkDisagrees _ | wrongVerdict .. | nothingToSolve | failed _ => .error

def message : Event → String
  | watching clauses slots => s!"watching {clauses} clauses over {slots} literals"
  | modelFound conflicts => s!"model found after {conflicts} conflicts"
  | exhausted conflicts => s!"search exhausted after {conflicts} conflicts"
  | header path line => s!"[Parser] {path}: {line}"
  | solving clauses names => s!"solving {clauses} clauses over {names} variables"
  | verdict true => "satisfiable"
  | verdict false => "unsatisfiable"
  | checkSkipped reason => s!"skipping the brute force check: {reason.message}"
  | checkDisagrees true => "brute force disagrees: expected SAT"
  | checkDisagrees false => "brute force disagrees: expected UNSAT"
  | wrongVerdict directory file => s!"wrong verdict for {directory}/{file}"
  | nothingToSolve => "nothing to solve, give --input, --clause or --bench"
  | failed error => error.message

def line (e : Event) : String := s!"{e.level.name}: {e.message}"

end Event

end CnfSolver
