import CnfSolver.Walk.Pull

/-!
# The search as a recursion

The same tree as a walk goes through, written down as it branches: decide the variable of the level
as zero and go through what is below, then as one, and open it again.
-/

namespace CnfSolver

namespace Trace

def passing (conflicts : Nat) (board : Board) : Trace := ⟨[], .exhausted, conflicts, board⟩

/-- Goes on where a trace ends, unless it broke off. -/
def andThen (t : Trace) (next : Nat → Board → Trace) : Trace :=
  match t.answer with
  | .exhausted =>
      let rest := next t.conflicts t.board
      { rest with models := t.models ++ rest.models }
  | _ => t

end Trace

namespace Board

/-- Decides one variable and goes through the branch below, unless that makes a clause false. -/
def branch (below : Nat → Board → Trace) (level : Int) (value : Bool) (conflicts : Nat)
    (b : Board) : Trace :=
  match b.decide level value with
  | (.moved, b) => below conflicts b
  | (.conflict, b) => .passing (conflicts + 1) b
  | (.outOfRange, b) => ⟨[], .outOfRange, conflicts, b⟩

/-- Goes through all that is left with the last `room` of `count` variables to decide. -/
def descend (count : Nat) : Nat → Nat → Board → Trace
  | 0, conflicts, b => ⟨[(conflicts, b)], .exhausted, conflicts, b⟩
  | room + 1, conflicts, b =>
      let level : Int := count - (room + 1)
      let below := descend count room
      ((b.branch below level false conflicts).andThen fun conflicts b =>
        b.branch below level true conflicts).andThen fun conflicts b =>
          .passing conflicts (b.unassign level)

end Board

end CnfSolver
