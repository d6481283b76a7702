import CnfSolver.Files
import CnfSolver.Numeral
import CnfSolver.Text.Characters
import CnfSolver.Transcript

/-!
# DIMACS files

A file holds numerals between blanks, and each zero ends a clause. Line breaks do not matter, except
that a line whose first character that is not blank is a `c` or a `p` is skipped, and that a line
starting with a `%` ends the file.
-/

namespace CnfSolver.Dimacs

def unifyLineEnds : List Char → List Char
  | [] => []
  | '\r' :: '\n' :: cs => '\n' :: unifyLineEnds cs
  | '\r' :: cs => '\n' :: unifyLineEnds cs
  | c :: cs => c :: unifyLineEnds cs

def lines (text : List Char) : List (List Char) := (unifyLineEnds text).splitOnP (· == '\n')

/-- The lines before the end of the data, without the blanks around them and without blank lines. -/
def dataLines (text : List Char) : List (List Char) :=
  (((lines text).takeWhile fun line => line.head? != some '%').map Text.strip).filter
    fun line => !line.isEmpty

/-- Whether the data end at a line that is complete, so that nothing behind it matters. A carriage
return at the end of the text may be half of a line end and completes no line yet. -/
def endsEarly (text : List Char) : Bool :=
  let known := if text.getLast? = some '\r' then text.dropLast else text
  (lines known).dropLast.any fun line => line.head? == some '%'

def isHeader (line : List Char) : Bool := line.head? == some 'p'

def isSkipped (line : List Char) : Bool := isHeader line || line.head? == some 'c'

def tokens (text : List Char) : List (List Char) :=
  ((dataLines text).filter fun line => !isSkipped line).flatMap Text.words

def readToken (path : String) (token : List Char) : Except Error Int :=
  match Numeral.read? token with
  | some v => .ok v
  | none => .error (.badLiteral (String.ofList token) path)

/-- Cuts a list of numbers at its zeros. What follows the last one is a clause unless empty. -/
def clausesOf (values : List Int) : List (List Int) :=
  let runs := values.splitOnP (· == 0)
  if runs.getLast? = some [] then runs.dropLast else runs

def headers (path : String) (text : List Char) : List Event :=
  ((dataLines text).filter isHeader).map fun line => .header path (String.ofList line)

def read (path : String) (text : List Char) : Except Error (List (List Int)) :=
  match (tokens text).mapM (readToken path) with
  | .ok values => .ok (clausesOf values)
  | .error e => .error e

/-- Loads a file, which is read until the end of the data is known. -/
def load (files : Files) (path : String) : Transcript (List (List Int)) :=
  match files.text endsEarly path with
  | .error e => .fail e
  | .ok text => ⟨[], headers path text, read path text⟩

end CnfSolver.Dimacs
