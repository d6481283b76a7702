import CnfSolver.Proofs.Formula
import CnfSolver.Proofs.NameTable.Rendering
import Mathlib

/-!
# Formulas on numbers

A number other than zero stands for the variable of its magnitude, which it negates if it is
negative. As a name the variable is written in decimals, and different variables have different
names, so a formula has a model on names if and only if it has one on numbers.
-/

namespace CnfSolver

namespace Dimacs

def Holds (value : Nat → Bool) (clauses : List (List Int)) : Prop :=
  ∀ clause ∈ clauses, ∃ v ∈ clause, value v.natAbs = decide (0 < v)

instance (value : Nat → Bool) (clauses : List (List Int)) : Decidable (Holds value clauses) :=
  inferInstanceAs (Decidable (∀ clause ∈ clauses, ∃ v ∈ clause, _ = _))

def IsSatisfiable (clauses : List (List Int)) : Prop := ∃ value, Holds value clauses

/-- Only the variables that occur matter, so it is enough to try which of them are true. -/
theorem isSatisfiable_iff_sublists {clauses : List (List Int)} :
    IsSatisfiable clauses ↔
      ∃ trues ∈ ((clauses.flatten.map Int.natAbs).eraseDups).sublists,
        Holds (fun n => decide (n ∈ trues)) clauses := by
  constructor
  · rintro ⟨value, h⟩
    refine ⟨_, List.mem_sublists.2 (List.filter_sublist (p := value)), fun clause hclause => ?_⟩
    obtain ⟨v, hv, hvalue⟩ := h clause hclause
    have hoccurs : v.natAbs ∈ (clauses.flatten.map Int.natAbs).eraseDups :=
      List.mem_eraseDups.2 (List.mem_map_of_mem (List.mem_flatten.2 ⟨clause, hclause, hv⟩))
    refine ⟨v, hv, ?_⟩
    rw [← hvalue]
    simp only [List.mem_filter, hoccurs, true_and, Bool.decide_eq_true]
  · rintro ⟨trues, -, h⟩
    exact ⟨_, h⟩

instance (clauses : List (List Int)) : Decidable (IsSatisfiable clauses) :=
  decidable_of_iff _ isSatisfiable_iff_sublists.symm

end Dimacs

theorem SignedName.holds_numbered {value : String → Bool} {v : Int} (hv : v ≠ 0) :
    (numbered v).Holds value ↔ value v.natAbs.repr = decide (0 < v) := by
  have hsign : (!decide (v < 0)) = decide (0 < v) := by
    rw [← decide_not, decide_eq_decide]
    omega
  rw [Holds, numbered, hsign]

namespace Formula

def ofIntegers (clauses : List (List Int)) : Formula :=
  clauses.map fun clause => clause.map SignedName.numbered

variable {clauses : List (List Int)}

theorem nil_mem_ofIntegers : [] ∈ ofIntegers clauses ↔ [] ∈ clauses := by
  rw [ofIntegers, List.mem_map]
  constructor
  · rintro ⟨clause, hclause, hnil⟩
    rw [List.map_eq_nil_iff] at hnil
    exact hnil ▸ hclause
  · exact fun hnil => ⟨[], hnil, rfl⟩

theorem holds_ofIntegers (hclauses : ∀ clause ∈ clauses, ∀ v ∈ clause, v ≠ 0)
    (value : String → Bool) :
    (ofIntegers clauses).Holds value ↔ Dimacs.Holds (fun n => value n.repr) clauses := by
  rw [Holds, ofIntegers, List.forall_mem_map, Dimacs.Holds]
  apply forall₂_congr
  intro clause hclause
  constructor
  · rintro ⟨s, hs, hholds⟩
    obtain ⟨v, hv, rfl⟩ := List.mem_map.1 hs
    exact ⟨v, hv, (SignedName.holds_numbered (hclauses clause hclause v hv)).1 hholds⟩
  · rintro ⟨v, hv, hvalue⟩
    exact ⟨_, List.mem_map_of_mem hv,
      (SignedName.holds_numbered (hclauses clause hclause v hv)).2 hvalue⟩

theorem isSatisfiable_ofIntegers (hclauses : ∀ clause ∈ clauses, ∀ v ∈ clause, v ≠ 0) :
    (ofIntegers clauses).IsSatisfiable ↔ Dimacs.IsSatisfiable clauses := by
  constructor
  · rintro ⟨value, h⟩
    exact ⟨_, (holds_ofIntegers hclauses value).1 h⟩
  · rintro ⟨value, h⟩
    -- a name has the value of the number that it spells
    refine ⟨Function.extend Nat.repr value fun _ => false, (holds_ofIntegers hclauses _).2 ?_⟩
    have hinjective : Function.Injective Nat.repr := fun _ _ => Nat.repr_injective
    simp only [hinjective.extend_apply]
    exact h

end Formula

end CnfSolver
