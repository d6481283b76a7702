import CnfSolver.Error
import CnfSolver.Numeral

/-!
# Signed names

A literal is written as its variable's name, after a tilde when it is negated. Names are not empty
and hold no tilde. A signed integer stands for the name that its magnitude spells.
-/

namespace CnfSolver

structure SignedName where
  name : String
  negated : Bool
  deriving DecidableEq, Repr

namespace SignedName

def isName (cs : List Char) : Bool := !cs.isEmpty && !cs.contains '~'

def ofToken? : List Char → Option SignedName
  | '~' :: cs => if isName cs then some ⟨String.ofList cs, true⟩ else none
  | cs => if isName cs then some ⟨String.ofList cs, false⟩ else none

def ofToken (line : String) (token : List Char) : Except Error SignedName :=
  match ofToken? token with
  | some s => .ok s
  | none => .error (.badLiteral (String.ofList token) line)

def ofInteger (v : Int) : Except Error SignedName :=
  match Numeral.write? v.natAbs with
  | some name => .ok ⟨name, v < 0⟩
  | none => .error .numeralTooLong

def render (s : SignedName) : String := if s.negated then s!"~{s.name}" else s.name

end SignedName

end CnfSolver
