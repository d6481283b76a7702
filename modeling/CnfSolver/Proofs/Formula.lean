import CnfSolver.SignedName
import Mathlib.Data.Set.Basic

/-!
# Formulas on names

A formula is a list of clauses of signed names. Which values of the names make it true depends on
the set of its clauses only, and on the set of the signed names of each.
-/

namespace CnfSolver

abbrev Formula := List (List SignedName)

def SignedName.Holds (value : String → Bool) (s : SignedName) : Prop := value s.name = !s.negated

instance (value : String → Bool) (s : SignedName) : Decidable (s.Holds value) :=
  inferInstanceAs (Decidable (_ = _))

namespace Formula

def Holds (value : String → Bool) (f : Formula) : Prop := ∀ clause ∈ f, ∃ s ∈ clause, s.Holds value

instance (value : String → Bool) (f : Formula) : Decidable (f.Holds value) :=
  inferInstanceAs (Decidable (∀ clause ∈ f, ∃ s ∈ clause, s.Holds value))

def IsSatisfiable (f : Formula) : Prop := ∃ value, f.Holds value

/-- The names that occur, each where it first does. -/
def names (f : Formula) : List String := (f.flatten.map SignedName.name).eraseDups

/-- The signed names of the clauses as tokens give them, none of which is an error. -/
def named (f : Formula) : List (List (Except Error SignedName)) :=
  f.map fun clause => clause.map .ok

def clauseSet (f : Formula) : Set (Set SignedName) := {c | ∃ clause ∈ f, c = {s | s ∈ clause}}

theorem mem_names {f : Formula} {name : String} (h : name ∈ f.names) :
    ∃ clause ∈ f, ∃ s ∈ clause, s.name = name := by
  obtain ⟨s, hs, rfl⟩ := List.mem_map.1 (List.mem_eraseDups.1 h)
  obtain ⟨clause, hclause, hs⟩ := List.mem_flatten.1 hs
  exact ⟨clause, hclause, s, hs, rfl⟩

theorem named_cons (clause : List SignedName) (f : Formula) :
    named (clause :: f) = clause.map .ok :: named f := rfl

theorem holds_iff_clauseSet {value : String → Bool} {f : Formula} :
    f.Holds value ↔ ∀ c ∈ f.clauseSet, ∃ s ∈ c, s.Holds value := by
  constructor
  · rintro h _ ⟨clause, hclause, rfl⟩
    exact h clause hclause
  · intro h clause hclause
    exact h {s | s ∈ clause} ⟨clause, hclause, rfl⟩

variable {f g : Formula}

theorem holds_congr (h : f.clauseSet = g.clauseSet) (value : String → Bool) :
    f.Holds value ↔ g.Holds value := by
  rw [holds_iff_clauseSet, holds_iff_clauseSet, h]

theorem isSatisfiable_congr (h : f.clauseSet = g.clauseSet) :
    f.IsSatisfiable ↔ g.IsSatisfiable :=
  exists_congr (holds_congr h)

theorem clauseSet_subset_iff :
    f.clauseSet ⊆ g.clauseSet ↔
      ∀ clause ∈ f, ∃ clause' ∈ g, clause ⊆ clause' ∧ clause' ⊆ clause := by
  have hsame : ∀ clause clause' : List SignedName,
      {s | s ∈ clause} = {s | s ∈ clause'} ↔ clause ⊆ clause' ∧ clause' ⊆ clause :=
    fun clause clause' => Set.Subset.antisymm_iff
  constructor
  · intro h clause hclause
    obtain ⟨clause', hclause', heq⟩ := h ⟨clause, hclause, rfl⟩
    exact ⟨clause', hclause', (hsame clause clause').1 heq⟩
  · rintro h _ ⟨clause, hclause, rfl⟩
    obtain ⟨clause', hclause', heq⟩ := h clause hclause
    exact ⟨clause', hclause', (hsame clause clause').2 heq⟩

instance (f g : Formula) : Decidable (f.clauseSet = g.clauseSet) :=
  decidable_of_iff
    ((∀ clause ∈ f, ∃ clause' ∈ g, clause ⊆ clause' ∧ clause' ⊆ clause) ∧
      ∀ clause ∈ g, ∃ clause' ∈ f, clause ⊆ clause' ∧ clause' ⊆ clause)
    (by rw [← clauseSet_subset_iff, ← clauseSet_subset_iff, Set.Subset.antisymm_iff])

end Formula

end CnfSolver
