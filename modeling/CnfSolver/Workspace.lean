import CnfSolver.NameTable

/-!
# Workspaces

A workspace holds several name tables, and streams of lines that are read into one of them only as
they are pulled.
-/

namespace CnfSolver

structure LineStream where
  table : Nat
  lines : List String
  deriving DecidableEq, Repr

structure Workspace where
  tables : List NameTable
  streams : List LineStream
  deriving DecidableEq, Repr

namespace Workspace

def empty : Workspace := ⟨[.empty], []⟩

inductive TableAction where
  | readLine (line : String)
  | readLines (lines : List String)
  | encodeIntegers (clauses : List (List Int))
  | number (name : String)
  | find (name : String)
  | contains (name : String)
  | size
  deriving DecidableEq, Repr

inductive Action where
  | onTable (table : Nat) (action : TableAction)
  /-- Makes a stream that reads lines into a table. -/
  | openStream (table : Nat) (lines : List String)
  /-- Reads the next line of a stream. -/
  | pull (stream : Nat)
  /-- Makes a table of its own with the names of `table`. -/
  | copy (table : Nat)
  deriving DecidableEq, Repr

inductive Reply where
  | none
  | clause (c : Clause)
  | clauses (cs : List Clause)
  | number (n : Nat)
  | truth (b : Bool)
  /-- The stream has no line left. -/
  | finished
  deriving DecidableEq, Repr

def actOnTable (t : NameTable) : TableAction → NameTable × Except Error Reply
  | .readLine line => (t.readLine line).map id (·.map .clause)
  | .readLines lines => (t.readLines lines).map id (·.map .clauses)
  | .encodeIntegers clauses => (t.encodeIntegers clauses).map id (·.map .clauses)
  | .number name => (t.number name).map id fun i => .ok (.number i)
  | .find name =>
      match t.find? name with
      | some i => (t, .ok (.number i))
      | none => (t, .error .unknownName)
  | .contains name => (t, .ok (.truth (t.contains name)))
  | .size => (t, .ok (.number t.size))

def onTable (w : Workspace) (k : Nat) (action : TableAction) : Workspace × Except Error Reply :=
  match w.tables[k]? with
  | none => (w, .error .indexOutOfRange)
  | some t =>
      let (t, reply) := actOnTable t action
      ({ w with tables := w.tables.set k t }, reply)

/-- Reads the next line of a stream. After an error the stream has no line left. -/
def pull (w : Workspace) (k : Nat) : Workspace × Except Error Reply :=
  match w.streams[k]? with
  | none => (w, .error .indexOutOfRange)
  | some ⟨_, []⟩ => (w, .ok .finished)
  | some ⟨table, line :: lines⟩ =>
      let (w, reply) := w.onTable table (.readLine line)
      let lines := if reply.isOk then lines else []
      ({ w with streams := w.streams.set k ⟨table, lines⟩ }, reply)

def perform (w : Workspace) : Action → Workspace × Except Error Reply
  | .onTable k action => w.onTable k action
  | .openStream table lines =>
      ({ w with streams := w.streams ++ [⟨table, lines⟩] }, .ok .none)
  | .pull k => w.pull k
  | .copy k =>
      match w.tables[k]? with
      | none => (w, .error .indexOutOfRange)
      | some t => ({ w with tables := w.tables ++ [t] }, .ok (.number w.tables.length))

def performAll (w : Workspace) : List Action → Workspace × List (Except Error Reply)
  | [] => (w, [])
  | action :: actions =>
      let (w, reply) := w.perform action
      let (w, replies) := w.performAll actions
      (w, reply :: replies)

end Workspace

end CnfSolver
