import CnfSolver.Index
import CnfSolver.Literal

/-!
# Partial assignments

An assignment has one entry per variable, empty while the variable is open. A literal is true or
false only once its variable has a value; a clause is true as soon as one of its literals is. A
literal whose variable has no entry has no truth value at all, and the answers here are then `none`.
-/

namespace CnfSolver

abbrev Assignment := List (Option Int)

namespace Literal

def isFalse? (l : Literal) (a : Assignment) : Option Bool :=
  (Index.get? a l.var).map fun value => value == some l.sign

/-- Whether the literal's variable has a value, and not the one that makes it false. -/
def isTrue? (l : Literal) (a : Assignment) : Option Bool :=
  (Index.get? a l.var).map fun value => value.any (· != l.sign)

end Literal

/-- Whether some literal of the clause is true. Literals behind the first true one are not looked
at. -/
def Clause.isTrue? (a : Assignment) : Clause → Option Bool
  | [] => some false
  | l :: ls =>
      match l.isTrue? a with
      | none => none
      | some true => some true
      | some false => Clause.isTrue? a ls

/-- Whether every clause is true. Clauses behind the first one that is not are not looked at. -/
def satisfies? (a : Assignment) : List Clause → Option Bool
  | [] => some true
  | c :: cs =>
      match Clause.isTrue? a c with
      | none => none
      | some false => some false
      | some true => satisfies? a cs

end CnfSolver
