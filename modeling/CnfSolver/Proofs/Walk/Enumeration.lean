import CnfSolver.Proofs.Assignment.FirstFalse
import CnfSolver.Proofs.Walk.Board
import CnfSolver.Proofs.Walk.Recursion

/-!
# The models of a walk

From a board in order a walk comes to the assignments that satisfy the clauses, all of them, each
once and in increasing order, and has a conflict for each first false prefix. Seen as a recursion,
going through a branch adds the models and the first false prefixes of that branch to the trace and
leaves the board in order at the point where the branch began. A branch that is cut off has no
model, because the clause that is false there stays false, and it is a first false prefix itself.
-/

namespace CnfSolver

open Assignment (ofValues completions)

def Assignment.modelsOf (cs : List Clause) (a : Assignment) : List Assignment :=
  (completions a).filter fun m => satisfies? m cs = some true

namespace Assignment

variable {n : Nat} {cs : List Clause} {values : List Bool}

theorem mem_modelsOf {m : Assignment} :
    m ∈ modelsOf cs (ofValues n values) ↔
      m.Extends (ofValues n values) ∧ m.IsTotal ∧ satisfies? m cs = some true := by
  rw [modelsOf, List.mem_filter, mem_completions_ofValues, decide_eq_true_iff, and_assoc]

theorem modelsOf_ofValues (h : values.length < n) :
    modelsOf cs (ofValues n values) =
      modelsOf cs (ofValues n (values ++ [false])) ++
        modelsOf cs (ofValues n (values ++ [true])) := by
  rw [modelsOf, completions_ofValues h, List.filter_append, modelsOf, modelsOf]

theorem modelsOf_of_allFalse (hcs : ∀ c ∈ cs, c.WellFormed n) (hlen : values.length ≤ n)
    (h : ∃ c ∈ cs, c.AllFalse (ofValues n values)) : modelsOf cs (ofValues n values) = [] := by
  obtain ⟨c, hc, hfalse⟩ := h
  rw [List.eq_nil_iff_forall_not_mem]
  intro m hm
  obtain ⟨hextends, htotal, hsat⟩ := mem_modelsOf.1 hm
  have hlength : m.length = n := by rw [hextends.length_eq, length_ofValues hlen]
  have hrange : ∀ c ∈ cs, ∀ l ∈ c, l.InRange m.length := by
    rw [hlength]
    exact fun c hc => (hcs c hc).inRange
  exact (satisfies?_iff_of_isTotal htotal hrange).1 hsat c hc (hfalse.of_extends hextends)

theorem modelsOf_of_length_eq (hcs : ∀ c ∈ cs, c.WellFormed n) (hlen : values.length = n)
    (h : ∀ c ∈ cs, ¬c.AllFalse (ofValues n values)) :
    modelsOf cs (ofValues n values) = [ofValues n values] := by
  have hrange : ∀ c ∈ cs, ∀ l ∈ c, l.InRange (ofValues n values).length := by
    rw [length_ofValues (Nat.le_of_eq hlen)]
    exact fun c hc => (hcs c hc).inRange
  have hsat := (satisfies?_iff_of_isTotal (isTotal_ofValues hlen) hrange).2 h
  rw [modelsOf, completions_ofValues_of_length_eq hlen]
  simp [hsat]

theorem pairwise_modelsOf (cs : List Clause) (a : Assignment) :
    (modelsOf cs a).Pairwise Before :=
  (pairwise_completions a).filter _

end Assignment

namespace Trace

def assignments (t : Trace) : List Assignment := t.models.map (·.2.assignment)

variable {t : Trace} (next : Nat → Board → Trace)

theorem answer_andThen (h : t.answer = .exhausted) :
    (t.andThen next).answer = (next t.conflicts t.board).answer := by
  rw [andThen, h]

theorem board_andThen (h : t.answer = .exhausted) :
    (t.andThen next).board = (next t.conflicts t.board).board := by
  rw [andThen, h]

theorem conflicts_andThen (h : t.answer = .exhausted) :
    (t.andThen next).conflicts = (next t.conflicts t.board).conflicts := by
  rw [andThen, h]

theorem assignments_andThen (h : t.answer = .exhausted) :
    (t.andThen next).assignments = t.assignments ++ (next t.conflicts t.board).assignments := by
  rw [assignments, andThen, h]
  exact List.map_append

end Trace

/-- A trace that ends and comes to the branch of `values` as a whole: its models are those of the
branch, and to `before` conflicts it adds one for each first false prefix. -/
structure Trace.Covers (n : Nat) (cs : List Clause) (values : List Bool) (before : Nat)
    (t : Trace) : Prop where
  answer_eq : t.answer = .exhausted
  assignments_eq : t.assignments = Assignment.modelsOf cs (ofValues n values)
  conflicts_eq : (t.conflicts : ℕ∞) = before + (firstFalse n cs values).encard

namespace Board

theorem IsValid.not_falsifies {n : Nat} {cs : List Clause} {values : List Bool} {b : Board}
    (hb : b.IsValid n cs values) : ¬Falsifies n cs values := by
  rintro ⟨c, hc, hfalse⟩
  rw [← hb.assignment_eq] at hfalse
  exact hb.watches.not_allFalse c hc hfalse

end Board

namespace Trace.Covers

variable {n : Nat} {cs : List Clause} {values : List Bool} {before : Nat} {t : Trace}

theorem of_length_eq (hcs : ∀ c ∈ cs, c.WellFormed n) (hlen : values.length = n) {b : Board}
    (hb : b.IsValid n cs values) (before : Nat) :
    Covers n cs values before ⟨[(before, b)], .exhausted, before, b⟩ := by
  have hnot := hb.not_falsifies
  have hnone : ∀ c ∈ cs, ¬c.AllFalse (ofValues n values) :=
    fun c hc hfalse => hnot ⟨c, hc, hfalse⟩
  refine ⟨rfl, ?_, ?_⟩
  · rw [Assignment.modelsOf_of_length_eq hcs hlen hnone, ← hb.assignment_eq]
    rfl
  · rw [firstFalse_of_length_eq hlen hnot, Set.encard_empty, add_zero]

theorem passing (hcs : ∀ c ∈ cs, c.WellFormed n) (h : IsFirstFalse n cs values) (before : Nat)
    (b : Board) : Covers n cs values before (.passing (before + 1) b) := by
  refine ⟨rfl, ?_, ?_⟩
  · rw [Assignment.modelsOf_of_allFalse hcs h.length_le h.falsifies]
    rfl
  · rw [firstFalse_eq_singleton h, Set.encard_singleton]
    rfl

/-- Elsewhere the branch is that of the value 0 and then that of the value 1. -/
theorem andThen (next : Nat → Board → Trace) (hlt : values.length < n)
    (hnot : ¬Falsifies n cs values) (h : t.Covers n cs (values ++ [false]) before)
    (hnext : (next t.conflicts t.board).Covers n cs (values ++ [true]) t.conflicts) :
    (t.andThen next).Covers n cs values before := by
  refine ⟨?_, ?_, ?_⟩
  · rw [answer_andThen next h.answer_eq, hnext.answer_eq]
  · rw [assignments_andThen next h.answer_eq, h.assignments_eq, hnext.assignments_eq,
      Assignment.modelsOf_ofValues hlt]
  · rw [conflicts_andThen next h.answer_eq, hnext.conflicts_eq, h.conflicts_eq,
      encard_firstFalse hnot, add_assoc]

theorem andThen_passing (h : t.Covers n cs values before) (f : Board → Board) :
    (t.andThen fun conflicts b => .passing conflicts (f b)).Covers n cs values before := by
  refine ⟨?_, ?_, ?_⟩
  · rw [answer_andThen _ h.answer_eq]
    rfl
  · rw [assignments_andThen _ h.answer_eq, h.assignments_eq]
    exact List.append_nil _
  · rw [conflicts_andThen _ h.answer_eq]
    exact h.conflicts_eq

end Trace.Covers

namespace Board

variable {n : Nat} {cs : List Clause} {values : List Bool}

/-- A branch is cut off where a clause becomes false, and gone through elsewhere. -/
theorem branch_spec (hcs : ∀ c ∈ cs, c.WellFormed n) (hlt : values.length < n) {b : Board}
    (hb : (b.unassign values.length).IsValid n cs values) (value : Bool)
    {below : Nat → Board → Trace} {before : Nat}
    (hbelow : ∀ b', b'.IsValid n cs (values ++ [value]) →
      (below before b').Covers n cs (values ++ [value]) before ∧
        (below before b').board.IsValid n cs (values ++ [value])) :
    (b.branch below values.length value before).Covers n cs (values ++ [value]) before ∧
      ((b.branch below values.length value before).board.unassign values.length).IsValid
        n cs values := by
  rcases decide_cases hcs hlt hb value with
    ⟨b', heq, hassignment, hvalid, hfalse⟩ | ⟨b', heq, hvalid⟩
  · rw [hassignment] at hfalse
    have hfirst := isFirstFalse_concat hb.not_falsifies hlt hfalse
    rw [branch, heq]
    exact ⟨.passing hcs hfirst before b', hvalid⟩
  · obtain ⟨hcovers, hback⟩ := hbelow b' hvalid
    rw [branch, heq]
    exact ⟨hcovers, hback.unassign_concat hlt⟩

/-- The recursion covers the branch of its board, and comes back to that board but for the places of
the watched clauses. -/
theorem descend_spec (hcs : ∀ c ∈ cs, c.WellFormed n) (room : Nat)
    (hlen : values.length + room = n) (before : Nat) {b : Board} (hb : b.IsValid n cs values) :
    (b.descend n room before).Covers n cs values before ∧
      (b.descend n room before).board.IsValid n cs values := by
  induction room generalizing values before b with
  | zero => exact ⟨.of_length_eq hcs hlen hb before, hb⟩
  | succ room ih =>
      have hlt : values.length < n := by omega
      have hlevel : (n : Int) - (room + 1) = values.length := by omega
      have hbelow (value : Bool) (before : Nat) (b' : Board)
          (hb' : b'.IsValid n cs (values ++ [value])) :
          (b'.descend n room before).Covers n cs (values ++ [value]) before ∧
            (b'.descend n room before).board.IsValid n cs (values ++ [value]) := by
        refine ih ?_ before hb'
        rw [List.length_append, List.length_singleton]
        omega
      have hopen := hb.unassign (Nat.le_of_lt hlt)
      obtain ⟨hcovers₀, hvalid₀⟩ := branch_spec hcs hlt hopen false (hbelow false before)
      -- the second value is tried on the board that the first one leaves behind
      obtain ⟨hcovers₁, hvalid₁⟩ := branch_spec hcs hlt hvalid₀ true (hbelow true _)
      have hboth := hcovers₀.andThen
        (fun conflicts b => b.branch (descend n room) values.length true conflicts)
        hlt hb.not_falsifies hcovers₁
      rw [descend, hlevel]
      refine ⟨hboth.andThen_passing fun b => b.unassign values.length, ?_⟩
      rw [Trace.board_andThen _ hboth.answer_eq, Trace.board_andThen _ hcovers₀.answer_eq]
      exact hvalid₁

end Board

namespace Walk

open Board (IsValid)

theorem models_eq (w : Walk) : w.models = w.trace.assignments := rfl

section Start

variable {n : Nat} {cs : List Clause} {values : List Bool} {b : Board}

theorem covers_trace (hcs : ∀ c ∈ cs, c.WellFormed n) (hlen : values.length ≤ n)
    (hb : b.IsValid n cs values) :
    (Walk.start n values.length b).trace.Covers n cs values 0 ∧
      (Walk.start n values.length b).trace.board.IsValid n cs values := by
  have hroom : ((n : Int) - values.length).toNat = n - values.length := by omega
  rw [trace_start_eq_descend n _ (by omega) b, hroom]
  exact Board.descend_spec hcs (n - values.length) (by omega) 0 hb

/-- A walk from a board in order finds the models that extend the board. -/
theorem trace_spec (hcs : ∀ c ∈ cs, c.WellFormed n) (hlen : values.length ≤ n)
    (hb : b.IsValid n cs values) :
    (Walk.start n values.length b).trace.answer = .exhausted ∧
      (Walk.start n values.length b).trace.board.IsValid n cs values ∧
      (Walk.start n values.length b).models = Assignment.modelsOf cs b.assignment := by
  obtain ⟨hcovers, hvalid⟩ := covers_trace hcs hlen hb
  rw [models_eq, hb.assignment_eq]
  exact ⟨hcovers.answer_eq, hvalid, hcovers.assignments_eq⟩

theorem conflicts_trace (hcs : ∀ c ∈ cs, c.WellFormed n) (hlen : values.length ≤ n)
    (hb : b.IsValid n cs values) :
    ((Walk.start n values.length b).trace.conflicts : ℕ∞) =
      (firstFalse n cs values).encard := by
  rw [(covers_trace hcs hlen hb).1.conflicts_eq, Nat.cast_zero, zero_add]

end Start

/-- From an assignment to the first variables and a watch list in order, a walk ends without an
error and comes to exactly the assignments to all variables that extend the one it started with and
satisfy the clauses, each once and in increasing order. A new watch list is such a start. -/
theorem trace_enumerates (n s : Nat) (cs : List Clause) (a : Assignment) (w : WatchList)
    (hcs : ∀ c ∈ cs, c.WellFormed n) (hs : s ≤ n) (ha : a.IsDecidedTo n s)
    (hw : w.Watches n cs a) :
    (Walk.start n s ⟨a, w⟩).trace.answer = .exhausted ∧
    (∀ m, m ∈ (Walk.start n s ⟨a, w⟩).models ↔
      m.Extends a ∧ m.IsTotal ∧ satisfies? m cs = some true) ∧
    (Walk.start n s ⟨a, w⟩).models.Pairwise Assignment.Before ∧
    (Walk.start n s ⟨a, w⟩).models.Nodup ∧
    ∃ w₀, WatchList.ofClauses? n cs = some w₀ ∧
      Assignment.IsDecidedTo n 0 (List.replicate n none) ∧
      w₀.Watches n cs (List.replicate n none) := by
  obtain ⟨values, rfl, rfl⟩ := ha.exists_ofValues hs
  obtain ⟨hanswer, -, hmodels⟩ := trace_spec (b := ⟨ofValues n values, w⟩) hcs hs ⟨rfl, hw⟩
  have hpairwise : (Walk.start n values.length ⟨ofValues n values, w⟩).models.Pairwise
      Assignment.Before := by
    rw [hmodels]
    exact Assignment.pairwise_modelsOf cs _
  obtain ⟨w₀, hw₀, hwatches⟩ := WatchList.Watches.exists_ofClauses? hcs
  refine ⟨hanswer, ?_, hpairwise, Assignment.nodup_of_pairwise_before hpairwise,
    w₀, hw₀, Assignment.isDecidedTo_zero n, hwatches⟩
  intro m
  rw [hmodels]
  exact Assignment.mem_modelsOf

/-- The variable 0 is decided, a clause occurs twice, and the walk finds what is left. -/
theorem trace_enumerates_from_one :
    let cs : List Clause := [[⟨0⟩, ⟨3⟩], [⟨1⟩, ⟨2⟩, ⟨4⟩], [⟨0⟩, ⟨3⟩], [⟨4⟩, ⟨5⟩, ⟨4⟩]]
    let w : WatchList :=
      [[[⟨0⟩, ⟨3⟩]], [], [[⟨1⟩, ⟨2⟩, ⟨4⟩]], [[⟨0⟩, ⟨3⟩]], [], [[⟨4⟩, ⟨5⟩, ⟨4⟩]]]
    ∀ m, m ∈ (Walk.start 3 1 ⟨[some 1, none, none], w⟩).models ↔
      m.Extends [some 1, none, none] ∧ m.IsTotal ∧ satisfies? m cs = some true :=
  (trace_enumerates 3 1 [[⟨0⟩, ⟨3⟩], [⟨1⟩, ⟨2⟩, ⟨4⟩], [⟨0⟩, ⟨3⟩], [⟨4⟩, ⟨5⟩, ⟨4⟩]]
    [some 1, none, none]
    [[[⟨0⟩, ⟨3⟩]], [], [[⟨1⟩, ⟨2⟩, ⟨4⟩]], [[⟨0⟩, ⟨3⟩]], [], [[⟨4⟩, ⟨5⟩, ⟨4⟩]]]
    (by decide) (by decide) ⟨rfl, by decide, by decide⟩
    ⟨rfl, by decide, by decide, by decide⟩).2.1

end Walk

end CnfSolver
