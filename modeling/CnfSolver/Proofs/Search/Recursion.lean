import CnfSolver.Proofs.Search.Log
import CnfSolver.Proofs.Walk.Recursion

/-!
# A search is the recursion, pull by pull

The recursive search decides the variable of its level as zero, goes on one level below, does the
same with one, and opens the variable. A walk that keeps a trail instead finds the same at every
pull, whatever its watch list and its assignment hold: the same models, boards and log, and an error
at the same point with the same board left behind.
-/

namespace CnfSolver

namespace Board

def recurse (n : Nat) (level : Int) (conflicts : Nat) (b : Board) : Trace :=
  b.descend n (n - level).toNat conflicts

theorem recurse_self (n : Nat) (conflicts : Nat) (b : Board) :
    recurse n n conflicts b = ⟨[(conflicts, b)], .exhausted, conflicts, b⟩ := by
  rw [recurse, Int.sub_self]
  rfl

/-- With a variable left, both of its values are tried before it is opened again. -/
theorem recurse_of_lt {n : Nat} {level : Int} (h : level < n) (conflicts : Nat) (b : Board) :
    recurse n level conflicts b =
      ((b.branch (recurse n (level + 1)) level false conflicts).andThen fun conflicts b =>
        b.branch (recurse n (level + 1)) level true conflicts).andThen fun conflicts b =>
          .passing conflicts (b.unassign level) := by
  have hroom : ((n : Int) - level).toNat = ((n : Int) - (level + 1)).toNat + 1 := by omega
  have hlevel : (n : Int) - ((((n : Int) - (level + 1)).toNat : Nat) + 1) = level := by omega
  rw [recurse, hroom, descend, hlevel]
  rfl

end Board

namespace Search

/-- A walk and the recursion have the same trace, and every pull of the walk finds what comes next
in it. -/
theorem found_eq_recurse (n : Nat) (level : Int) (hlevel : level ≤ n) (b : Board) :
    (Walk.start n level b).trace = b.recurse n level 0 ∧
      ∀ k, found ((Walk.start n level b).afterPulls k) = (b.recurse n level 0).stop k := by
  have htrace : (Walk.start n level b).trace = b.recurse n level 0 :=
    Walk.trace_start_eq_descend n level hlevel b
  refine ⟨htrace, fun k => ?_⟩
  rw [found_afterPulls, htrace]

/-- A walk that starts below zero has a conflict, a model, and then a literal that has no slot. -/
theorem found_eq_recurse_below_zero :
    let w := Walk.start 1 (-1) ⟨[none, some 7], [[], [[⟨1⟩, ⟨9⟩]], [[⟨-2⟩]], []]⟩
    found (w.afterPulls 0) =
        (.model, ⟨[some 0, some 1], [[], [[⟨1⟩, ⟨9⟩]], [[⟨-2⟩]], []]⟩, [.modelFound 1]) ∧
      found (w.afterPulls 1) =
        (.outOfRange, ⟨[some 1, some 1], [[], [[⟨1⟩, ⟨9⟩]], [[⟨-2⟩]], []]⟩, []) := by
  intro w
  have hpulls := (found_eq_recurse 1 (-1) (by decide)
    ⟨[none, some 7], [[], [[⟨1⟩, ⟨9⟩]], [[⟨-2⟩]], []]⟩).2
  exact ⟨(hpulls 0).trans rfl, (hpulls 1).trans rfl⟩

end Search

end CnfSolver
