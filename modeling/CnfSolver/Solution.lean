import CnfSolver.Assignment
import CnfSolver.Text.Quoting

/-!
# Solutions

The outcome of solving: a model, given by the values of the named variables, or none.
-/

namespace CnfSolver

inductive Format where
  | string
  | json
  deriving DecidableEq, Repr

namespace Format

def all : List Format := [string, json]

def name : Format → String
  | string => "string"
  | json => "json"

def ofName? (s : String) : Option Format := all.find? fun format => format.name == s

end Format

inductive Solution where
  | model (names : List String) (assignment : Assignment)
  | unsatisfiable
  deriving DecidableEq, Repr

namespace Solution

def isModel : Solution → Bool
  | model .. => true
  | unsatisfiable => false

def assignment? : Solution → Option Assignment
  | model _ a => some a
  | unsatisfiable => none

/-- Sets the value of `name`, at its old place if it has one and at the end otherwise. -/
def put (entries : List (String × Option Int)) (name : String) (value : Option Int) :
    List (String × Option Int) :=
  if entries.any fun entry => entry.1 == name then
    entries.map fun entry => if entry.1 = name then (name, value) else entry
  else
    entries ++ [(name, value)]

/-- The values by name. A repeated name has its first place and its last value. -/
def entriesOf (names : List String) (a : Assignment) : List (String × Option Int) :=
  (names.zip a).foldl (fun entries (name, value) => put entries name value) []

def entries? : Solution → Option (List (String × Option Int))
  | model names a => some (entriesOf names a)
  | unsatisfiable => none

def jsonValue : Option Int → String
  | some v => toString v
  | none => "null"

def textValue : Option Int → String
  | some v => toString v
  | none => "None"

def jsonEntry (entry : String × Option Int) : String :=
  Text.jsonString entry.1 ++ ":" ++ jsonValue entry.2

def textEntry (entry : String × Option Int) : String :=
  entry.1 ++ " = " ++ textValue entry.2

def braced (separator : String) (parts : List String) : String :=
  "\x7b" ++ separator.intercalate parts ++ "\x7d"

def json : Solution → String
  | model names a => braced "," ((entriesOf names a).map jsonEntry)
  | unsatisfiable => ""

def text : Solution → String
  | model names a => braced ", " ((entriesOf names a).map textEntry)
  | unsatisfiable => ""

def render (s : Solution) : Format → String
  | .string => s.text
  | .json => s.json

def shown (s : Solution) : String :=
  match s with
  | model .. => s!"ValidAssignment({s.text})"
  | unsatisfiable => "NoSolution()"

end Solution

end CnfSolver
