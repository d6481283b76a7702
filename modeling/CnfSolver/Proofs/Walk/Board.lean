import CnfSolver.Proofs.Assignment.Completion
import CnfSolver.Proofs.Watches.Invariant
import CnfSolver.Walk

/-!
# Boards in order

The board of a walk is in order when its assignment decides the first variables and no other and its
watch list is in order under that assignment. What a decision does is said here once, for a variable
that may still have a value from before.
-/

namespace CnfSolver.Board

open Assignment (ofValues)

/-- The board gives `values` to the first of `n` variables, and its watch list watches `cs`. -/
structure IsValid (n : Nat) (cs : List Clause) (values : List Bool) (b : Board) : Prop where
  assignment_eq : b.assignment = ofValues n values
  watches : b.watches.Watches n cs b.assignment

variable {n : Nat} {cs : List Clause} {values : List Bool} {b : Board}

theorem unassign_of_lt {k : Nat} (h : k < b.assignment.length) :
    b.unassign k = ⟨b.assignment.set k none, b.watches⟩ := by
  rw [unassign, Index.set?_natCast h, Option.getD_some]

theorem unassign_of_le {k : Nat} (h : b.assignment.length ≤ k) : b.unassign k = b := by
  have hplace : Index.place? b.assignment.length k = none :=
    Index.place?_eq_none.2 (.inr (by omega))
  rw [unassign, Index.set?, hplace, Option.map_none, Option.getD_none]

namespace IsValid

theorem length_eq (hb : b.IsValid n cs values) (hlen : values.length ≤ n) :
    b.assignment.length = n := by
  rw [hb.assignment_eq, Assignment.length_ofValues hlen]

theorem unassign_concat {value : Bool} (hb : b.IsValid n cs (values ++ [value]))
    (hlt : values.length < n) : (b.unassign values.length).IsValid n cs values := by
  have hset : b.assignment.set values.length none = ofValues n values := by
    rw [hb.assignment_eq, Assignment.set_ofValues_concat hlt]
  have hlen : b.assignment.length = n :=
    hb.length_eq (by rw [List.length_append, List.length_singleton]; exact hlt)
  rw [unassign_of_lt (by omega)]
  refine ⟨hset, hb.watches.of_extends ?_⟩
  rw [hset, hb.assignment_eq]
  exact Assignment.extends_ofValues_concat hlt value

theorem unassign (hb : b.IsValid n cs values) (hle : values.length ≤ n) :
    (b.unassign values.length).IsValid n cs values := by
  have hlen := hb.length_eq hle
  by_cases hlt : values.length < n
  · have hset : b.assignment.set values.length none = b.assignment := by
      have hnone := Assignment.getElem?_ofValues_length hlt
      rw [← hb.assignment_eq] at hnone
      obtain ⟨hk, hentry⟩ := List.getElem?_eq_some_iff.1 hnone
      rw [← hentry, List.set_getElem_self]
    rw [unassign_of_lt (by omega), hset]
    exact hb
  · rwa [unassign_of_le (by omega)]

end IsValid

/-- Deciding the first open variable, which may still have a value from before. -/
theorem decide_cases (hcs : ∀ c ∈ cs, c.WellFormed n) (hlt : values.length < n)
    (hb : (b.unassign values.length).IsValid n cs values) (value : Bool) :
    (∃ b', b.decide values.length value = (.conflict, b') ∧
      b'.assignment = ofValues n (values ++ [value]) ∧
      (b'.unassign values.length).IsValid n cs values ∧ ∃ c ∈ cs, c.AllFalse b'.assignment) ∨
    ∃ b', b.decide values.length value = (.moved, b') ∧ b'.IsValid n cs (values ++ [value]) := by
  have hlen : b.assignment.length = n := by
    rw [← length_unassign b values.length]
    exact hb.length_eq (Nat.le_of_lt hlt)
  rw [unassign_of_lt (by omega)] at hb
  obtain ⟨hopen, hwatches⟩ := hb
  simp only at hopen hwatches
  rw [hopen] at hwatches
  have hset : b.assignment.set values.length (some value.toInt) =
      ofValues n (values ++ [value]) := by
    rw [← Assignment.set_ofValues hlt, ← hopen, List.set_set]
  have hdecide (verdict : Verdict) (w : WatchList)
      (heq : b.watches.update (Literal.of values.length value) (ofValues n (values ++ [value])) =
        (verdict, w)) :
      b.decide values.length value = (verdict, ⟨ofValues n (values ++ [value]), w⟩) := by
    rw [decide, Index.set?_natCast (by omega), hset, Literal.falsifiedBy_toInt]
    simp only [heq]
  have hupdate :=
    hwatches.update_cases hcs (Assignment.length_ofValues (Nat.le_of_lt hlt)) hlt value
  rw [Assignment.set_ofValues hlt] at hupdate
  rcases hupdate with ⟨heq, hfalse⟩ | ⟨w, heq, hwatches'⟩
  · refine .inl ⟨⟨ofValues n (values ++ [value]), b.watches⟩, hdecide _ _ heq, rfl, ?_, hfalse⟩
    have hlen' : (ofValues n (values ++ [value])).length = n :=
      Assignment.length_ofValues (by rw [List.length_append, List.length_singleton]; exact hlt)
    rw [unassign_of_lt (by simp only [hlen']; exact hlt)]
    refine ⟨Assignment.set_ofValues_concat hlt value, ?_⟩
    rw [Assignment.set_ofValues_concat hlt]
    exact hwatches
  · exact .inr ⟨⟨ofValues n (values ++ [value]), w⟩, hdecide _ _ heq, rfl, hwatches'⟩

end CnfSolver.Board
