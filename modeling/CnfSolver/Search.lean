import CnfSolver.Transcript
import CnfSolver.Walk.Pull

/-!
# Searching with a log

A search sets up a watch list, walks from a start and records what it finds on the way.
-/

namespace CnfSolver.Search

def watch (n : Nat) (clauses : List Clause) : Transcript WatchList :=
  match WatchList.ofClauses? n clauses with
  | none => .fail .indexOutOfRange
  | some w => ⟨[], [.watching clauses.length w.length], .ok w⟩

def start (n : Nat) (w : WatchList) : Walk :=
  Walk.start n 0 ⟨List.replicate n none, w⟩

/-- What a pull logs, where `w` is the walk after it. -/
def events (answer : Answer) (w : Walk) : List Event :=
  match answer with
  | .model => [.modelFound w.conflicts]
  | .exhausted => [.exhausted w.conflicts]
  | .outOfRange | .over => []

def models : Nat → Walk → Transcript (List Assignment)
  | 0, _ => .done []
  | limit + 1, w =>
      match w.pull with
      | (answer, w) =>
          match answer with
          | .model =>
              (⟨[], events answer w, .ok ()⟩ : Transcript Unit).bind fun _ =>
                (models limit w).bind fun rest => .done (w.board.assignment :: rest)
          | .outOfRange => .fail .indexOutOfRange
          | .exhausted | .over => ⟨[], events answer w, .ok []⟩

def firstModel (n : Nat) (clauses : List Clause) : Transcript (Option Assignment) :=
  (watch n clauses).bind fun w =>
    (models 1 (start n w)).bind fun found => .done found.head?

end CnfSolver.Search
