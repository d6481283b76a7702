import CnfSolver.Literal
import CnfSolver.SignedName
import CnfSolver.Text.Characters

/-!
# Names of variables

Variables are numbered in the order in which their names first occur. One table serves every clause
of an instance, and names that were met before an error stay in it.
-/

namespace CnfSolver

/-- The names of the variables in the order of their numbers, and the number of each name. -/
structure NameTable where
  names : List String
  numbers : List (String × Nat)
  deriving DecidableEq, Repr

namespace NameTable

def empty : NameTable := ⟨[], []⟩

def size (t : NameTable) : Nat := t.names.length

def find? (t : NameTable) (name : String) : Option Nat := t.numbers.lookup name

def contains (t : NameTable) (name : String) : Bool := (t.find? name).isSome

/-- The number of `name`, the next free one if it is new. -/
def number (t : NameTable) (name : String) : NameTable × Nat :=
  match t.find? name with
  | some i => (t, i)
  | none => (⟨t.names ++ [name], t.numbers ++ [(name, t.size)]⟩, t.size)

/-- Encodes one clause from its signed names, of which the first that is an error ends it. -/
def encode (t : NameTable) : List (Except Error SignedName) → NameTable × Except Error Clause
  | [] => (t, .ok [])
  | .error e :: _ => (t, .error e)
  | .ok s :: rest =>
      match t.number s.name with
      | (t, i) =>
          match t.encode rest with
          | (t, .error e) => (t, .error e)
          | (t, .ok clause) => (t, .ok (Literal.of i s.negated :: clause))

def encodeAll (t : NameTable) :
    List (List (Except Error SignedName)) → NameTable × Except Error (List Clause)
  | [] => (t, .ok [])
  | names :: rest =>
      match t.encode names with
      | (t, .error e) => (t, .error e)
      | (t, .ok clause) =>
          match t.encodeAll rest with
          | (t, .error e) => (t, .error e)
          | (t, .ok clauses) => (t, .ok (clause :: clauses))

def lineNames (line : String) : List (Except Error SignedName) :=
  (Text.words line.toList).map (SignedName.ofToken line)

def readLine (t : NameTable) (line : String) : NameTable × Except Error Clause :=
  t.encode (lineNames line)

def readLines (t : NameTable) (lines : List String) : NameTable × Except Error (List Clause) :=
  t.encodeAll (lines.map lineNames)

/-- Encodes clauses of signed integers, each variable named by its number. -/
def encodeIntegers (t : NameTable) (clauses : List (List Int)) :
    NameTable × Except Error (List Clause) :=
  t.encodeAll (clauses.map fun clause => clause.map SignedName.ofInteger)

def signedName? (t : NameTable) (l : Literal) : Option SignedName :=
  if 0 ≤ l.var then t.names[l.var.toNat]?.map (⟨·, l.isNegated⟩) else none

def render? (t : NameTable) (clause : Clause) : Option String :=
  (clause.mapM t.signedName?).map fun names => " ".intercalate (names.map SignedName.render)

end NameTable

end CnfSolver
