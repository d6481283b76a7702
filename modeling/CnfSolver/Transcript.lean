import CnfSolver.Event

/-!
# Transcripts

What a computation printed and logged on the way to its result, in order. What it did before an
error stays in the transcript.
-/

namespace CnfSolver

inductive Piece where
  /-- The name of the input whose answer follows on the same line. -/
  | label (name : String)
  | line (text : String)
  /-- The summary of a benchmark directory. -/
  | benchmark (directory : String) (instances : Nat)
  deriving DecidableEq, Repr

/-- The text of a piece, where `seconds` gives the total and the average time of a directory. -/
def Piece.render (seconds : String → String × String) : Piece → String
  | label name => s!"{name}: "
  | line text => s!"{text}\n"
  | benchmark directory instances =>
      let (total, average) := seconds directory
      s!"{directory}: {instances} instances, total {total}, average {average}\n"

structure Transcript (α : Type) where
  output : List Piece
  events : List Event
  result : Except Error α

namespace Transcript

variable {α β : Type}

def done (a : α) : Transcript α := ⟨[], [], .ok a⟩

def fail (e : Error) : Transcript α := ⟨[], [], .error e⟩

def lift (r : Except Error α) : Transcript α := ⟨[], [], r⟩

def log (e : Event) : Transcript Unit := ⟨[], [e], .ok ()⟩

def print (p : Piece) : Transcript Unit := ⟨[p], [], .ok ()⟩

def bind (t : Transcript α) (f : α → Transcript β) : Transcript β :=
  match t.result with
  | .error e => ⟨t.output, t.events, .error e⟩
  | .ok a => ⟨t.output ++ (f a).output, t.events ++ (f a).events, (f a).result⟩

instance : Monad Transcript where
  pure := done
  bind := bind

end Transcript

end CnfSolver
