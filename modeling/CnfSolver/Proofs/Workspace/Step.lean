import CnfSolver.Proofs.NameTable.Decoding
import CnfSolver.Proofs.Traversal
import CnfSolver.Workspace

/-!
# One action on a workspace

An action works on one table at most, and there it only numbers names. So the other tables stay as
they are, and the clauses that are returned stand for the signed names of what they were encoded
from.
-/

namespace CnfSolver.Workspace

inductive Source where
  | line (text : String)
  | integers (clause : List Int)
  deriving DecidableEq, Repr

def Source.signedNames : Source → List (Except Error SignedName)
  | .line text => NameTable.lineNames text
  | .integers clause => clause.map fun v => .ok (SignedName.numbered v)

def TableAction.sources : TableAction → List Source
  | .readLine line => [.line line]
  | .readLines lines => lines.map .line
  | .encodeIntegers clauses => clauses.map .integers
  | .number _ | .find _ | .contains _ | .size => []

def Reply.returned : Reply → List Clause
  | .clause c => [c]
  | .clauses cs => cs
  | .none | .number _ | .truth _ | .finished => []

/-- The table on which an action works, and what it does there. To pull a stream is to read its next
line. -/
def tableAction? (w : Workspace) : Action → Option (Nat × TableAction)
  | .onTable k action => some (k, action)
  | .pull k =>
      match w.streams[k]? with
      | some ⟨table, line :: _⟩ => some (table, .readLine line)
      | some ⟨_, []⟩ | none => none
  | .openStream .. | .copy _ => none

/-! ## One table -/

section Table

variable {t : NameTable}

theorem find_of_some {name : String} {i : Nat} (h : t.find? name = some i) :
    actOnTable t (.find name) = (t, .ok (.number i)) := by
  rw [actOnTable, h]

theorem find_of_none {name : String} (h : t.find? name = none) :
    actOnTable t (.find name) = (t, .error .unknownName) := by
  rw [actOnTable, h]

theorem actOnTable_induct {P : NameTable → Prop} (hnumber : ∀ t name, P t → P (t.number name).1)
    (ht : P t) (action : TableAction) : P (actOnTable t action).1 := by
  cases action with
  | readLine line => exact NameTable.encode_induct (fun t s _ => hnumber t s.name) ht
  | readLines lines => exact NameTable.encodeAll_induct (fun t s _ => hnumber t s.name) ht
  | encodeIntegers clauses => exact NameTable.encodeAll_induct (fun t s _ => hnumber t s.name) ht
  | number name => exact hnumber t name ht
  | find name =>
      cases hfind : t.find? name with
      | some i =>
          rw [find_of_some hfind]
          exact ht
      | none =>
          rw [find_of_none hfind]
          exact ht
  | contains name => exact ht
  | size => exact ht

theorem names_prefix_actOnTable (t : NameTable) (action : TableAction) :
    t.names <+: (actOnTable t action).1.names := by
  apply actOnTable_induct (P := fun t' => t.names <+: t'.names)
  · intro t' name h
    exact h.trans (t'.names_prefix_number name)
  · exact List.prefix_refl _

theorem isConsistent_actOnTable (ht : t.IsConsistent) (action : TableAction) :
    (actOnTable t action).1.IsConsistent :=
  actOnTable_induct (fun _ name h => h.number name) ht action

theorem find_eq_ok_iff (ht : t.IsConsistent) {name : String} {i : Nat} :
    (actOnTable t (.find name)).2 = .ok (.number i) ↔ t.names[i]? = some name := by
  rw [← ht name i]
  cases hfind : t.find? name with
  | some j => simp [find_of_some hfind]
  | none => simp [find_of_none hfind]

theorem find_eq_error_iff (ht : t.IsConsistent) {name : String} :
    (actOnTable t (.find name)).2 = .error .unknownName ↔ name ∉ t.names := by
  rw [← ht.find?_eq_none_iff]
  cases hfind : t.find? name with
  | some j => simp [find_of_some hfind]
  | none => simp [find_of_none hfind]

theorem contains_eq (ht : t.IsConsistent) (name : String) :
    (actOnTable t (.contains name)).2 = .ok (.truth (decide (name ∈ t.names))) := by
  have hcontains : t.contains name = decide (name ∈ t.names) := by
    rw [NameTable.contains, Bool.eq_iff_iff, decide_eq_true_iff, Option.isSome_iff_ne_none]
    exact Decidable.not_iff_comm.1 ht.find?_eq_none_iff.symm
  rw [actOnTable, hcontains]

/-- Returned clauses stand for what they were encoded from, in the table as it is then. -/
theorem decodes_actOnTable (ht : t.IsConsistent) {action : TableAction} {reply : Reply}
    (h : (actOnTable t action).2 = .ok reply) :
    List.Forall₂ (fun clause source => (actOnTable t action).1.Decodes clause source.signedNames)
      reply.returned action.sources := by
  cases action with
  | readLine line =>
      obtain ⟨clause, hclause, rfl⟩ := exists_of_map_eq_ok h
      exact .cons (ht.decodes_encode _ hclause) .nil
  | readLines lines =>
      obtain ⟨clauses, hclauses, rfl⟩ := exists_of_map_eq_ok h
      exact List.forall₂_map_right_iff.2
        (List.forall₂_map_right_iff.1 (ht.decodes_encodeAll _ hclauses))
  | encodeIntegers integers =>
      obtain ⟨clauses, hclauses, rfl⟩ := exists_of_map_eq_ok h
      have hdecodes := ht.decodes_encodeIntegers integers hclauses
      exact List.forall₂_map_right_iff.2 (List.forall₂_map_right_iff.1 hdecodes)
  | find name =>
      cases hfind : t.find? name with
      | some i =>
          rw [find_of_some hfind] at h
          obtain rfl := Except.ok.inj h
          exact .nil
      | none =>
          rw [find_of_none hfind] at h
          exact nomatch h
  | number | contains | size =>
      obtain rfl := Except.ok.inj h
      exact .nil

end Table

/-! ## All tables -/

variable {w : Workspace} {k : Nat} {t : NameTable}

theorem onTable_of_some (h : w.tables[k]? = some t) (action : TableAction) :
    w.onTable k action =
      ({ w with tables := w.tables.set k (actOnTable t action).1 }, (actOnTable t action).2) := by
  rw [onTable, h]

theorem onTable_of_none (h : w.tables[k]? = none) (action : TableAction) :
    w.onTable k action = (w, .error .indexOutOfRange) := by
  rw [onTable, h]

theorem perform_of_tableAction {action : Action} {a : TableAction}
    (h : w.tableAction? action = some (k, a)) :
    (w.perform action).1.tables = (w.onTable k a).1.tables ∧
      (w.perform action).2 = (w.onTable k a).2 := by
  cases action with
  | onTable k' a' =>
      obtain ⟨rfl, rfl⟩ := Prod.mk.inj (Option.some.inj h)
      exact ⟨rfl, rfl⟩
  | pull i =>
      simp only [tableAction?] at h
      split at h
      · next table line lines hstream =>
        obtain ⟨rfl, rfl⟩ := Prod.mk.inj (Option.some.inj h)
        rw [perform, pull, hstream]
        exact ⟨rfl, rfl⟩
      · exact nomatch h
      · exact nomatch h
  | openStream table lines => exact nomatch h
  | copy i => exact nomatch h

theorem perform_of_no_tableAction {action : Action} (h : w.tableAction? action = none) :
    (w.perform action).1.tables = w.tables ∨
      ∃ k t, action = .copy k ∧ w.tables[k]? = some t ∧
        (w.perform action).1.tables = w.tables ++ [t] := by
  cases action with
  | onTable k' a' => exact nomatch h
  | pull i =>
      simp only [tableAction?] at h
      split at h
      · exact nomatch h
      · next hstream => exact .inl (by rw [perform, pull, hstream])
      · next hstream => exact .inl (by rw [perform, pull, hstream])
  | openStream table lines => exact .inl rfl
  | copy i =>
      cases hi : w.tables[i]? with
      | none => exact .inl (by rw [perform, hi])
      | some t => exact .inr ⟨i, t, rfl, hi, by rw [perform, hi]⟩

/-- An action leaves the tables, or works on one of them, or puts a copy of one behind them. -/
theorem tables_perform_cases (w : Workspace) (action : Action) :
    (w.perform action).1.tables = w.tables ∨
    (∃ k a t, w.tableAction? action = some (k, a) ∧ w.tables[k]? = some t ∧
      (w.perform action).1.tables = w.tables.set k (actOnTable t a).1) ∨
    ∃ k t, action = .copy k ∧ w.tables[k]? = some t ∧
      (w.perform action).1.tables = w.tables ++ [t] := by
  cases h : w.tableAction? action with
  | none =>
      rcases perform_of_no_tableAction h with heq | hcopy
      · exact .inl heq
      · exact .inr (.inr hcopy)
  | some place =>
      obtain ⟨k, a⟩ := place
      rw [(perform_of_tableAction h).1]
      cases hk : w.tables[k]? with
      | none => exact .inl (by rw [onTable_of_none hk])
      | some t => exact .inr (.inl ⟨k, a, t, rfl, hk, by rw [onTable_of_some hk]⟩)

end CnfSolver.Workspace
