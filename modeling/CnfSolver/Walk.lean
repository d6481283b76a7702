import CnfSolver.Watches

/-!
# Walking the tree of assignments

The walk decides the variables in order, zero before one, and leaves a branch as soon as a clause
becomes false. It stops at every model and can be resumed there. Instead of recursion it keeps the
trail of the values chosen so far, so the number of variables is not bounded by a call depth.
-/

namespace CnfSolver

/-- What a walk shares with its caller: the assignment that it fills in and the watch list that it
keeps up to date. -/
structure Board where
  assignment : Assignment
  watches : WatchList
  deriving DecidableEq, Repr

namespace Board

/-- Gives `value` to variable `v` and moves the clauses that watched the literal made false. -/
def decide (b : Board) (v : Int) (value : Bool) : Verdict × Board :=
  match Index.set? b.assignment v (some value.toInt) with
  | none => (.outOfRange, b)
  | some a =>
      match b.watches.update (Literal.falsifiedBy v value.toInt) a with
      | (verdict, w) => (verdict, ⟨a, w⟩)

def unassign (b : Board) (v : Int) : Board :=
  { b with assignment := (Index.set? b.assignment v none).getD b.assignment }

theorem length_decide (b : Board) (v : Int) (value : Bool) :
    (b.decide v value).2.assignment.length = b.assignment.length := by
  unfold decide
  split
  · rfl
  · next a h =>
    split
    exact Index.length_of_set? h

theorem lt_length_of_decide (b : Board) (v : Int) (value : Bool)
    (h : (b.decide v value).1 ≠ .outOfRange) : v < b.assignment.length := by
  cases hs : Index.set? b.assignment v (some value.toInt) with
  | none => simp [decide, hs] at h
  | some a => exact Index.lt_length_of_set? hs

theorem length_unassign (b : Board) (v : Int) :
    (b.unassign v).assignment.length = b.assignment.length := by
  unfold unassign
  cases h : Index.set? b.assignment v none with
  | none => rfl
  | some a => exact Index.length_of_set? h

end Board

inductive Phase where
  /-- Decide the variable with this value, or stop if none is left. -/
  | trying (value : Bool)
  /-- Both values are spent: open the variable. -/
  | clearing
  /-- Go back to the level above. -/
  | leaving
  /-- Nothing, the walk has ended. -/
  | over
  deriving DecidableEq, Repr

/-- The phase in which a walk returns to a level whose variable has `value`. -/
def Phase.after (value : Bool) : Phase := if value then .clearing else .trying true

inductive Answer where
  /-- Every variable is decided, the assignment is a model. -/
  | model
  | exhausted
  | outOfRange
  /-- The walk had ended before. -/
  | over
  deriving DecidableEq, Repr

/-- A walk that decides the variables from the one it started at up to `count`. -/
structure Walk where
  count : Nat
  level : Int
  phase : Phase
  /-- The values chosen above `level`, the latest first. -/
  trail : List Bool
  conflicts : Nat
  board : Board
  deriving DecidableEq, Repr

namespace Walk

def start (count : Nat) (level : Int) (board : Board) : Walk where
  count
  level
  phase := .trying false
  trail := []
  conflicts := 0
  board

def step (w : Walk) : Option Answer × Walk :=
  match w.phase with
  | .trying value =>
      if w.level = w.count then
        (some .model, { w with phase := .leaving })
      else
        match w.board.decide w.level value with
        | (.moved, board) =>
            (none, { w with
              level := w.level + 1, phase := .trying false, trail := value :: w.trail, board })
        | (.conflict, board) =>
            (none, { w with phase := .after value, conflicts := w.conflicts + 1, board })
        | (.outOfRange, board) => (some .outOfRange, { w with phase := .over, board })
  | .clearing => (none, { w with phase := .leaving, board := w.board.unassign w.level })
  | .leaving =>
      match w.trail with
      | [] => (some .exhausted, { w with phase := .over })
      | value :: trail =>
          (none, { w with level := w.level - 1, phase := .after value, trail })
  | .over => (some .over, w)

end Walk

end CnfSolver
