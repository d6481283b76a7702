import CnfSolver.Text.Characters

/-!
# Decimal numerals

A numeral is a run of decimal digits of any script, with at most one sign in front. A single
underscore may stand between two digits. Numerals have at most 4300 digits, leading zeros included.
-/

namespace CnfSolver.Numeral

open Text

def limit : Nat := 4300

/-- The values of the digits, if the text is digits and single underscores between them. -/
def digits? : List Char → Option (List Nat)
  | [] => none
  | [c] => (digit? c).map ([·])
  | c :: '_' :: cs => (digit? c).bind fun d => (digits? cs).map (d :: ·)
  | c :: cs => (digit? c).bind fun d => (digits? cs).map (d :: ·)

def ofDigits (ds : List Nat) : Nat := ds.foldl (fun n d => 10 * n + d) 0

def magnitude? (cs : List Char) : Option Nat :=
  (digits? cs).bind fun ds => if ds.length ≤ limit then some (ofDigits ds) else none

def read? : List Char → Option Int
  | '+' :: cs => (magnitude? cs).map fun n => (n : Int)
  | '-' :: cs => (magnitude? cs).map fun n => -(n : Int)
  | cs => (magnitude? cs).map fun n => (n : Int)

def write? (n : Nat) : Option String :=
  let s := n.repr
  if s.length ≤ limit then some s else none

end CnfSolver.Numeral
