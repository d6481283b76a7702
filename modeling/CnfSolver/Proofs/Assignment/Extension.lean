import CnfSolver.Proofs.Assignment.Truth

/-!
# Truth under more values

Giving values to open variables changes nothing that is decided already. A true literal stays true
and a false one false, so a formula that is satisfied by some of the values is satisfied by all ways
to fill in the others, and one that has a false clause by none of them.
-/

namespace CnfSolver

variable {a b : Assignment}

namespace Literal

variable {l : Literal}

theorem isTrue?_of_extends (hb : b.Extends a) (h : l.isTrue? a = some true) :
    l.isTrue? b = some true := by
  obtain ⟨v, hv, hne⟩ := isTrue?_eq_some_true.1 h
  exact isTrue?_eq_some_true.2 ⟨v, hb.get? hv, hne⟩

theorem isTrue?_ne_of_isFalse? (h : l.isFalse? a = some true) : l.isTrue? a ≠ some true := by
  intro htrue
  obtain ⟨v, hv, hne⟩ := isTrue?_eq_some_true.1 htrue
  rw [isFalse?_eq_some_true, hv, Option.some.injEq, Option.some.injEq] at h
  exact hne h

end Literal

section Formula

variable {cs : List Clause}

theorem satisfies?_of_extends (hcs : ∀ c ∈ cs, ∀ l ∈ c, l.InRange a.length) (hb : b.Extends a)
    (h : satisfies? a cs = some true) : satisfies? b cs = some true := by
  rw [satisfies?_eq_decide cs hcs, Option.some.injEq, decide_eq_true_iff] at h
  rw [satisfies?_eq_decide cs (by rwa [hb.length_eq]), Option.some.injEq, decide_eq_true_iff]
  intro c hc
  obtain ⟨l, hl, htrue⟩ := h c hc
  exact ⟨l, hl, Literal.isTrue?_of_extends hb htrue⟩

theorem satisfies?_of_allFalse (hcs : ∀ c ∈ cs, ∀ l ∈ c, l.InRange a.length) {c : Clause}
    (hc : c ∈ cs) (hfalse : c.AllFalse a) : satisfies? a cs = some false := by
  rw [satisfies?_eq_decide cs hcs, Option.some.injEq, decide_eq_false_iff_not]
  intro hall
  obtain ⟨l, hl, htrue⟩ := hall c hc
  exact Literal.isTrue?_ne_of_isFalse? (hfalse l hl) htrue

end Formula

/-- Under more values a true literal is true and a false one false; a satisfied formula is satisfied
and one with a false clause is not. Once every variable has a value, being true is not being false,
and a formula is satisfied if none of its clauses is false. -/
theorem Assignment.truth_of_extends {n : Nat} {cs : List Clause} {a b : Assignment}
    (hcs : ∀ c ∈ cs, ∀ l ∈ c, l.InRange n) (ha : a.length = n) (hb : b.Extends a) :
    (∀ l : Literal,
      (l.isTrue? a = some true → l.isTrue? b = some true) ∧
      (l.isFalse? a = some true → l.isFalse? b = some true)) ∧
    (satisfies? a cs = some true → satisfies? b cs = some true) ∧
    ((∃ c ∈ cs, c.AllFalse a) → satisfies? b cs = some false) ∧
    (b.IsTotal →
      (∀ l : Literal, l.isTrue? b = (l.isFalse? b).map (!·)) ∧
      satisfies? b cs = some (decide (∀ c ∈ cs, ¬c.AllFalse b))) := by
  subst ha
  have hcs' : ∀ c ∈ cs, ∀ l ∈ c, l.InRange b.length := by rwa [hb.length_eq]
  refine ⟨fun l => ⟨Literal.isTrue?_of_extends hb, Literal.isFalse?_of_extends hb⟩,
    satisfies?_of_extends hcs hb, ?_, fun htotal => ⟨?_, ?_⟩⟩
  · rintro ⟨c, hc, hfalse⟩
    exact satisfies?_of_allFalse hcs' hc (hfalse.of_extends hb)
  · exact Literal.isTrue?_of_isTotal htotal
  · exact satisfies?_of_isTotal htotal cs hcs'

/-- One formula is satisfied before its open variable gets a value, the other has a false clause
behind an open one by then. -/
theorem Assignment.truth_of_extends_by_one :
    let a : Assignment := [some 0, none, some 1]
    let b : Assignment := [some 0, some 1, some 1]
    let cs : List Clause := [[⟨2⟩, ⟨1⟩], [⟨4⟩, ⟨3⟩]]
    let ds : List Clause := [[⟨2⟩], [⟨0⟩, ⟨5⟩]]
    (∀ c ∈ cs ++ ds, ∀ l ∈ c, l.InRange 3) ∧ a.length = 3 ∧ b.Extends a ∧
      satisfies? a cs = some true ∧ satisfies? b cs = some true ∧
      Clause.AllFalse a [⟨0⟩, ⟨5⟩] ∧ satisfies? b ds = some false ∧
      b.IsTotal ∧ satisfies? b cs = some (decide (∀ c ∈ cs, ¬c.AllFalse b)) := by
  intro a b cs ds
  have hcs : ∀ c ∈ cs, ∀ l ∈ c, l.InRange 3 := by decide
  have hds : ∀ c ∈ ds, ∀ l ∈ c, l.InRange 3 := by decide
  have hb : b.Extends a := by decide
  have hsat : satisfies? a cs = some true := by decide
  have hfalse : Clause.AllFalse a [⟨0⟩, ⟨5⟩] := by decide
  have htotal : b.IsTotal := by decide
  obtain ⟨-, hstays, -, hverdict⟩ := truth_of_extends hcs rfl hb
  obtain ⟨-, -, hnever, -⟩ := truth_of_extends hds rfl hb
  refine ⟨by decide, rfl, hb, hsat, hstays hsat, hfalse, ?_, htotal, (hverdict htotal).2⟩
  exact hnever ⟨_, by decide, hfalse⟩

end CnfSolver
