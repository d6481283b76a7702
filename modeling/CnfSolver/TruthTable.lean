import CnfSolver.Assignment
import CnfSolver.Error

/-!
# Truth tables

The rows of a truth table are counted up in binary, with variable 0 in the lowest bit. Every clause
is checked before any row is looked at, so a literal that has no column is an error even where other
clauses rule out every row.
-/

namespace CnfSolver.TruthTable

def limit : Nat := 20

def Fits64 (v : Int) : Prop := -0x8000000000000000 ≤ v ∧ v < 0x8000000000000000

instance : DecidablePred Fits64 := fun _ => inferInstanceAs (Decidable (_ ∧ _))

def column (n : Nat) (l : Literal) : Except Error (Nat × Bool) :=
  match Index.place? n l.var with
  | some k => .ok (k, l.isNegated)
  | none => .error .indexOutOfRange

/-- The columns of a clause's literals. A literal that does not fit into 64 bits is found before one
that has no column. -/
def columns (n : Nat) (clause : Clause) : Except Error (List (Nat × Bool)) :=
  if ∀ l ∈ clause, Fits64 l.code then clause.mapM (column n) else .error .tooWide

def rowSatisfies (r : Nat) (clause : List (Nat × Bool)) : Bool :=
  clause.any fun (k, negated) => r.testBit k != negated

def row (n r : Nat) : Assignment := (List.range n).map fun k => some (r.testBit k).toInt

def firstAmong (n rows : Nat) (clauses : List Clause) : Except Error (Option Assignment) :=
  match clauses.mapM (columns n) with
  | .error e => .error e
  | .ok table =>
      .ok (((List.range rows).find? fun r => table.all (rowSatisfies r)).map (row n))

def firstRow (n : Nat) (clauses : List Clause) : Except Error (Option Assignment) :=
  if limit < n then .error (.tooManyVariables n limit)
  else if n = 0 then .ok (if clauses.isEmpty then some [] else none)
  else firstAmong n (Nat.pow 2 n) clauses

/-! ## Counts below zero -/

/-- The least magnitude that does not round to a finite double: halfway between the greatest double
and the next power of two. -/
def doubleLimit : Nat := Nat.pow 2 1024 - Nat.pow 2 970

/-- Rounded to a double, the number is not below the signed numbers of 64 bits. -/
def RoundsInto64 (v : Int) : Prop := -0x8000000000000400 ≤ v

instance : DecidablePred RoundsInto64 := fun _ => inferInstanceAs (Decidable (_ ≤ _))

/-- The first row over a negative number of variables, where the rows are counted by a double and
the columns in 64 bits. The count is an error unless it is too low for 64 bits and rounds to their
lowest number, where the table has no rows and no columns. -/
def firstRowBelow (count : Int) (clauses : List Clause) : Except Error (Option Assignment) :=
  if doubleLimit ≤ count.natAbs then .error .tooWide
  else if Fits64 count then .error .negativeCount
  else if RoundsInto64 count then firstAmong 0 0 clauses
  else .error .countTooLow

def firstRowOf (count : Int) (clauses : List Clause) : Except Error (Option Assignment) :=
  if 0 ≤ count then firstRow count.toNat clauses else firstRowBelow count clauses

end CnfSolver.TruthTable
