import CnfSolver.Text.Quoting

/-!
# Errors

One constructor per cause. The solver's own errors and those of files have a message, in which texts
and paths are quoted; the command line reports these two kinds and lets the others pass.
-/

namespace CnfSolver

inductive FileFault where
  | notFound
  | isDirectory
  | notDirectory
  deriving DecidableEq, Repr

def FileFault.message : FileFault → String
  | .notFound => "[Errno 2] No such file or directory"
  | .isDirectory => "[Errno 21] Is a directory"
  | .notDirectory => "[Errno 20] Not a directory"

inductive Error where
  /-- A token is no literal. For a file, `line` is its path. -/
  | badLiteral (token line : String)
  | emptyClause (text : String)
  /-- A literal's variable is not one of `count`. -/
  | literalRange (literal count : Int)
  /-- A clause comes after the solution. -/
  | solved (text : String)
  | tooManyVariables (count limit : Int)
  /-- A count of variables is below zero. -/
  | negativeCount
  /-- A count of variables is below the numbers of 64 bits. -/
  | countTooLow
  /-- A setting has an unknown value. -/
  | badSetting (text : String)
  | general (text : String)
  | file (fault : FileFault) (path : String)
  /-- A path holds the character NUL. -/
  | nulInPath
  /-- A file's bytes are not UTF-8. -/
  | notText
  | indexOutOfRange
  /-- A number is beyond the range that it is computed in. -/
  | tooWide
  | unknownName
  | unknownStage
  /-- A number has more digits than numerals may have. -/
  | numeralTooLong
  /-- A path is left out. -/
  | missingPath
  /-- A clause or the name of a level is left out. -/
  | missingText
  deriving DecidableEq, Repr

namespace Error

def message : Error → String
  | badLiteral token line => s!"bad literal {Text.quoted token} in clause {Text.quoted line}"
  | emptyClause text => text
  | literalRange literal count => s!"literal {literal} is out of range for {count} variables"
  | solved text => text
  | tooManyVariables count limit =>
      s!"{count} variables is too many to brute force, the limit is {limit}"
  | negativeCount => "a count of variables is below zero"
  | countTooLow => "a count of variables is far below zero"
  | badSetting text => text
  | general text => text
  | file fault path => s!"{fault.message}: {Text.quoted path}"
  | nulInPath => "a path holds the character NUL"
  | notText => "a file is not UTF-8 text"
  | indexOutOfRange => "an index is out of range"
  | tooWide => "a number is too wide"
  | unknownName => "a name is unknown"
  | unknownStage => "a stage is unknown"
  | numeralTooLong => "a number has too many digits"
  | missingPath => "a path is left out"
  | missingText => "a text is left out"

/-- What an error of the solver is about: a value, an index, or the state it came in. -/
inductive Category where
  | value
  | index
  | state
  deriving DecidableEq, Repr

def category : Error → Option Category
  | badLiteral .. | emptyClause _ | tooManyVariables .. | badSetting _ => some .value
  | literalRange .. => some .index
  | solved _ => some .state
  | _ => none

def isReported : Error → Bool
  | badLiteral .. | emptyClause _ | literalRange .. | solved _ | tooManyVariables .. => true
  | badSetting _ | general _ | file .. => true
  | negativeCount | countTooLow | nulInPath | notText | indexOutOfRange | tooWide | unknownName
  | unknownStage | numeralTooLong | missingPath | missingText => false

end Error

instance decidableEqExcept {ε α : Type} [DecidableEq ε] [DecidableEq α] :
    DecidableEq (Except ε α)
  | .ok a, .ok b => decidable_of_iff (a = b) ⟨congrArg _, Except.ok.inj⟩
  | .error e, .error f => decidable_of_iff (e = f) ⟨congrArg _, Except.error.inj⟩
  | .ok _, .error _ => isFalse nofun
  | .error _, .ok _ => isFalse nofun

end CnfSolver
