import CnfSolver.Assignment

/-!
# Watch lists

A watch list has one slot per literal code, and each clause sits in the slot of one of its own
literals. A clause needs a look only once the literal it watches becomes false: it then moves to the
slot of another literal that is not false, and if it has none left it is false as a whole.

Going back in a search only ever opens variables, and a literal of an open variable is never false,
so a clause that has moved may stay where it is. An update that meets a false clause undoes its own
moves first.
-/

namespace CnfSolver

abbrev WatchList := List (List Clause)

inductive Verdict where
  /-- Every clause that watched the false literal has moved. -/
  | moved
  /-- Some clause has no literal left to watch. -/
  | conflict
  /-- A literal has no slot, or its variable no entry. -/
  | outOfRange
  deriving DecidableEq, Repr

namespace WatchList

def slot? (w : WatchList) (l : Literal) : Option (List Clause) := Index.get? w l.code

def append? (w : WatchList) (l : Literal) (c : Clause) : Option WatchList :=
  Index.modify? w l.code (· ++ [c])

def dropLast (w : WatchList) (l : Literal) : WatchList :=
  (Index.modify? w l.code List.dropLast).getD w

def clear (w : WatchList) (l : Literal) : WatchList :=
  (Index.set? w l.code []).getD w

/-- The watch list over `n` variables in which each clause, in order, watches its first
literal. -/
def ofClauses? (n : Nat) (clauses : List Clause) : Option WatchList :=
  clauses.foldlM (fun w c => c.head?.bind fun l => append? w l c)
    (List.replicate (2 * n) [])

/-- The first literal of a clause, other than `f`, that is not false: `none` when a variable without
an entry comes before it, `some none` when there is no such literal. -/
def replacement? (f : Literal) (a : Assignment) : Clause → Option (Option Literal)
  | [] => some none
  | l :: ls =>
      if l = f then replacement? f a ls
      else
        match l.isFalse? a with
        | none => none
        | some true => replacement? f a ls
        | some false => some (some l)

def undo (w : WatchList) (moved : List Literal) : WatchList := moved.foldl dropLast w

/-- Moves clauses away from `f`, in order, recording in `moved` the slots that they went to. -/
def relocate (f : Literal) (a : Assignment) :
    List Clause → List Literal → WatchList → Verdict × WatchList
  | [], _, w => (.moved, w)
  | c :: cs, moved, w =>
      match replacement? f a c with
      | none => (.outOfRange, w)
      | some none => (.conflict, w.undo moved)
      | some (some l) =>
          match w.append? l c with
          | none => (.outOfRange, w)
          | some w' => relocate f a cs (l :: moved) w'

/-- Moves every clause that watches `f` to a literal that is not false under `a`, and then empties
the slot of `f`. A conflict leaves the watch list as it was. -/
def update (w : WatchList) (f : Literal) (a : Assignment) : Verdict × WatchList :=
  match w.slot? f with
  | none => (.outOfRange, w)
  | some clauses =>
      match relocate f a clauses [] w with
      | (.moved, w') => (.moved, w'.clear f)
      | other => other

end WatchList

end CnfSolver
