import CnfSolver.Proofs.Search.Log
import CnfSolver.Proofs.Walk.Decisions
import CnfSolver.Proofs.Walk.Invariant

/-!
# The conflicts of a walk

A decision ends in a conflict just when it makes some clause of the whole formula false, wherever
that clause is watched. So the walk turns back at the first point at which it could: it has one
conflict for each first false prefix, whatever the order of the clauses and of their literals, and
its models and conflicts are the leaves of the tree whose edges are its decisions.
-/

namespace CnfSolver.Walk

variable {n : Nat} {cs : List Clause} {base : List Bool} {w : Walk}

theorem IsSound.conflict_iff (hw : w.IsSound n cs base) (hcs : ∀ c ∈ cs, c.WellFormed n)
    {verdict : Verdict} {b : Board} (h : w.decision? = some (verdict, b)) :
    verdict ≠ .outOfRange ∧ (verdict = .conflict ↔ ∃ c ∈ cs, c.AllFalse b.assignment) := by
  obtain ⟨value, -, hlevel, hdecide⟩ := decision?_eq_some.1 h
  rcases hw.decide_cases hcs value hlevel with ⟨b', heq, -, -, hfalse⟩ | ⟨b', heq, hvalid⟩
  · rw [hdecide] at heq
    obtain ⟨rfl, rfl⟩ := Prod.mk.inj heq
    exact ⟨by simp, fun _ => hfalse, fun _ => rfl⟩
  · rw [hdecide] at heq
    obtain ⟨rfl, rfl⟩ := Prod.mk.inj heq
    refine ⟨by simp, fun h => (nomatch h), ?_⟩
    rintro ⟨c, hc, hfalse⟩
    exact absurd hfalse (hvalid.watches.not_allFalse c hc)

theorem exists_start_spec (hcs : ∀ c ∈ cs, c.WellFormed n) :
    ∃ w₀, WatchList.ofClauses? n cs = some w₀ ∧
      (Search.start n w₀).IsSound n cs [] ∧
      (Search.start n w₀).trace.answer = .exhausted ∧
      ((Search.start n w₀).trace.conflicts : ℕ∞) = {p | IsFirstFalse n cs p}.encard := by
  obtain ⟨w₀, hw₀, hwatches⟩ := WatchList.Watches.exists_ofClauses? hcs
  have hboard : Board.IsValid n cs [] ⟨List.replicate n none, w₀⟩ := ⟨rfl, hwatches⟩
  have hlen : ([] : List Bool).length ≤ n := Nat.zero_le n
  refine ⟨w₀, hw₀, isSound_start hlen hboard, (trace_spec hcs hlen hboard).1, ?_⟩
  rw [← firstFalse_nil]
  exact conflicts_trace hcs hlen hboard

/-- Every decision of a search is a conflict just when some clause of the formula is false then. The
conflicts that are logged at the end are as many as there are first false prefixes, so reordering
the clauses and their literals does not change them. Together with the models they are one more than
half of the decisions. -/
theorem conflict_iff_and_count (n : Nat) (cs : List Clause) (hcs : ∀ c ∈ cs, c.WellFormed n) :
    ∃ w₀, WatchList.ofClauses? n cs = some w₀ ∧
      (∀ verdict b, (verdict, b) ∈ (Search.start n w₀).decisions →
        verdict ≠ .outOfRange ∧ (verdict = .conflict ↔ ∃ c ∈ cs, c.AllFalse b.assignment)) ∧
      (∀ limit, (Search.start n w₀).models.length < limit →
        (Search.models limit (Search.start n w₀)).events.getLast? =
          some (.exhausted (Search.start n w₀).trace.conflicts)) ∧
      ((Search.start n w₀).trace.conflicts : ℕ∞) = {p | IsFirstFalse n cs p}.encard ∧
      (∀ cs', Reorders cs cs' → ∃ w₁, WatchList.ofClauses? n cs' = some w₁ ∧
        (Search.start n w₁).trace.conflicts = (Search.start n w₀).trace.conflicts) ∧
      2 ∣ (Search.start n w₀).decisions.length ∧
      (Search.start n w₀).models.length + (Search.start n w₀).trace.conflicts =
        1 + (Search.start n w₀).decisions.length / 2 := by
  obtain ⟨w₀, hw₀, hsound, hanswer, hcount⟩ := exists_start_spec hcs
  have hmodels : (Search.start n w₀).models.length = (Search.start n w₀).trace.models.length :=
    List.length_map ..
  have haccount : 2 * ((Search.start n w₀).models.length + (Search.start n w₀).trace.conflicts) =
      2 + (Search.start n w₀).decisions.length := by
    rw [hmodels]
    exact (isWithin_start (Int.natCast_nonneg n) _).account hanswer
  refine ⟨w₀, hw₀, ?_, ?_, hcount, ?_, by omega, by omega⟩
  · intro verdict b hmem
    obtain ⟨w, hreaches, hdecision⟩ := mem_decisions.1 hmem
    exact (hsound.reaches hcs hreaches).conflict_iff hcs hdecision
  · intro limit hlimit
    rw [hmodels] at hlimit
    rw [Search.events_models _ _ hlimit, Trace.log, Trace.stops, List.flatMap_append,
      List.flatMap_singleton, Trace.lastEvents, hanswer]
    exact List.getLast?_concat
  · intro cs' hreorders
    obtain ⟨w₁, hw₁, -, -, hcount'⟩ := exists_start_spec (hreorders.wellFormed hcs)
    refine ⟨w₁, hw₁, ?_⟩
    -- both counts are that of the first false prefixes, which a reordering does not change
    have hsame : ((Search.start n w₁).trace.conflicts : ℕ∞) =
        (Search.start n w₀).trace.conflicts := by
      rw [hcount', hcount, hreorders.firstFalse_eq]
    exact Nat.cast_injective hsame

/-- `A B` and `~A`, which `1` and `0 0` make false first. -/
theorem conflict_iff_and_count_two_variables :
    ∃ w₀, WatchList.ofClauses? 2 [[⟨0⟩, ⟨2⟩], [⟨1⟩]] = some w₀ ∧
      (∀ verdict b, (verdict, b) ∈ (Search.start 2 w₀).decisions →
        (verdict = .conflict ↔ ∃ c ∈ [[⟨0⟩, ⟨2⟩], [⟨1⟩]], Clause.AllFalse b.assignment c)) ∧
      {p | IsFirstFalse 2 [[⟨0⟩, ⟨2⟩], [⟨1⟩]] p}.encard = 2 := by
  obtain ⟨w₀, hw₀, hverdict, -, hcount, -⟩ :=
    conflict_iff_and_count 2 [[⟨0⟩, ⟨2⟩], [⟨1⟩]] (by decide)
  obtain rfl : [[[⟨0⟩, ⟨2⟩]], [[⟨1⟩]], [], []] = w₀ := Option.some.inj hw₀
  have hconflicts :
      (Search.start 2 [[[⟨0⟩, ⟨2⟩]], [[⟨1⟩]], [], []]).trace.conflicts = 2 := by
    rw [Search.start, trace_start_eq_descend 2 0 (by decide)]
    rfl
  rw [hconflicts] at hcount
  exact ⟨_, rfl, fun verdict b h => (hverdict verdict b h).2, hcount.symm⟩

end CnfSolver.Walk
