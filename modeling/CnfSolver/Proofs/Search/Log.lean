import CnfSolver.Proofs.Transcript
import CnfSolver.Proofs.Walk.Run
import CnfSolver.Search

/-!
# What pulls find and log

Pull by pull a walk gives what its trace lists: the models first, each with the board and the
conflicts so far, then the end, and nothing ever after. The log of a search is the log of these
pulls.
-/

namespace CnfSolver

namespace Trace

def lastEvents (t : Trace) : List Event :=
  match t.answer with
  | .exhausted => [.exhausted t.conflicts]
  | _ => []

def stops (t : Trace) : List (Answer × Board × List Event) :=
  t.models.map (fun (conflicts, board) => (.model, board, [.modelFound conflicts])) ++
    [(t.answer, t.board, t.lastEvents)]

/-- What pull number `k` finds. After the end there is nothing left, and the board stays. -/
def stop (t : Trace) (k : Nat) : Answer × Board × List Event :=
  t.stops[k]?.getD (.over, t.board, [])

def log (t : Trace) : List Event := t.stops.flatMap fun stop => stop.2.2

end Trace

namespace Search

def found (w : Walk) : Answer × Board × List Event :=
  (w.pull.1, w.pull.2.board, events w.pull.1 w.pull.2)

variable {w w' : Walk}

theorem stops_of_model (h : w.pull = (.model, w')) : w.trace.stops = found w :: w'.trace.stops := by
  rw [Walk.trace_of_model h, found, h]
  rfl

theorem stops_of_end {answer : Answer} (h : w.pull = (answer, w')) (hne : answer ≠ .model) :
    w.trace.stops = [found w] := by
  rw [Walk.trace_of_end h hne, found, h]
  cases answer with
  | model => exact absurd rfl hne
  | _ => rfl

theorem found_of_over (h : w.phase = .over) : found w = (.over, w.board, []) := by
  rw [found, Walk.pull_of_stop (Walk.step_of_over h)]
  rfl

theorem afterPulls_of_over (h : w.phase = .over) (k : Nat) : w.afterPulls k = w := by
  induction k with
  | zero => rfl
  | succ k ih => rw [Walk.afterPulls, ih, Walk.pull_of_stop (Walk.step_of_over h)]

/-- The pulls of a walk find what its trace lists, and nothing after its end. -/
theorem found_afterPulls (w : Walk) (k : Nat) : found (w.afterPulls k) = w.trace.stop k := by
  induction k generalizing w with
  | zero =>
      cases hpull : w.pull with
      | mk answer w' =>
          by_cases hmodel : answer = .model
          · subst hmodel
            rw [Trace.stop, stops_of_model hpull]
            rfl
          · rw [Trace.stop, stops_of_end hpull hmodel]
            rfl
  | succ k ih =>
      cases hpull : w.pull with
      | mk answer w' =>
          rw [Walk.afterPulls_succ, hpull]
          by_cases hmodel : answer = .model
          · subst hmodel
            rw [ih w', Trace.stop, Trace.stop, stops_of_model hpull, Walk.trace_of_model hpull,
              List.getElem?_cons_succ]
          · have hover := Walk.phase_of_pull hpull hmodel
            rw [afterPulls_of_over hover, found_of_over hover, Trace.stop,
              stops_of_end hpull hmodel, Walk.trace_of_end hpull hmodel]
            rfl

theorem log_of_model (h : w.pull = (.model, w')) :
    w.trace.log = events .model w' ++ w'.trace.log := by
  rw [Trace.log, stops_of_model h, List.flatMap_cons, found, h]
  rfl

theorem log_of_end {answer : Answer} (h : w.pull = (answer, w')) (hne : answer ≠ .model) :
    w.trace.log = events answer w' := by
  rw [Trace.log, stops_of_end h hne, List.flatMap_singleton, found, h]

/-- A search that asks for more models than there are logs the whole trace. -/
theorem events_models (w : Walk) (limit : Nat) (h : w.trace.models.length < limit) :
    (models limit w).events = w.trace.log := by
  induction limit generalizing w with
  | zero => exact absurd h (Nat.not_lt_zero _)
  | succ limit ih =>
      rw [models]
      cases hpull : w.pull with
      | mk answer w' =>
          cases answer with
          | model =>
              rw [Walk.trace_of_model hpull, List.length_cons] at h
              rw [log_of_model hpull, ← ih w' (Nat.lt_of_succ_lt_succ h)]
              simp only
              rw [Transcript.bind_of_ok rfl, Transcript.events_bind_done]
          | outOfRange => rw [log_of_end hpull (by simp)]; rfl
          | _ => rw [log_of_end hpull (by simp)]

end Search

end CnfSolver
