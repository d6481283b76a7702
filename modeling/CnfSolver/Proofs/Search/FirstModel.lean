import CnfSolver.Proofs.Transcript
import CnfSolver.Proofs.Walk.Enumeration
import CnfSolver.Search

/-!
# The first model

A search for one model of clauses on the variables finds the lexicographically least one, and finds
none just when there is none. It prints nothing.
-/

namespace CnfSolver

namespace Assignment

structure IsModel (n : Nat) (cs : List Clause) (m : Assignment) : Prop where
  length_eq : m.length = n
  isTotal : m.IsTotal
  satisfies : satisfies? m cs = some true

structure IsLeastModel (n : Nat) (cs : List Clause) (m : Assignment) : Prop
    extends IsModel n cs m where
  least : ∀ m', IsModel n cs m' → m' = m ∨ m.Before m'

theorem extends_replicate_none {n : Nat} {m : Assignment} :
    m.Extends (List.replicate n none) ↔ m.length = n := by
  constructor
  · intro h
    rw [h.length_eq, List.length_replicate]
  · rintro rfl
    induction m with
    | nil => exact .nil
    | cons x m ih => exact .cons (.inl rfl) ih

theorem mem_modelsOf_replicate_none {n : Nat} {cs : List Clause} {m : Assignment} :
    m ∈ modelsOf cs (List.replicate n none) ↔ m.IsModel n cs := by
  rw [← ofValues_nil, mem_modelsOf, ofValues_nil, extends_replicate_none]
  exact ⟨fun ⟨hlength, htotal, hsat⟩ => ⟨hlength, htotal, hsat⟩,
    fun h => ⟨h.length_eq, h.isTotal, h.satisfies⟩⟩

theorem isLeastModel_of_head? {n : Nat} {cs : List Clause} {m : Assignment}
    (h : (modelsOf cs (List.replicate n none)).head? = some m) : m.IsLeastModel n cs := by
  have hpairwise := pairwise_modelsOf cs (List.replicate n none)
  obtain ⟨rest, hrest⟩ := List.head?_eq_some_iff.1 h
  rw [hrest] at hpairwise
  refine ⟨mem_modelsOf_replicate_none.1 (by rw [hrest]; exact List.mem_cons_self), ?_⟩
  intro m' hm'
  have hmem := mem_modelsOf_replicate_none.2 hm'
  rw [hrest] at hmem
  rcases List.mem_cons.1 hmem with rfl | hmem
  · exact .inl rfl
  · exact .inr (List.rel_of_pairwise_cons hpairwise hmem)

end Assignment

namespace Search

theorem isQuiet_models (limit : Nat) (w : Walk) : (models limit w).IsQuiet := by
  induction limit generalizing w with
  | zero => exact ⟨rfl, rfl⟩
  | succ limit ih =>
      rw [models]
      cases hpull : w.pull with
      | mk answer w' =>
          cases answer with
          | model =>
              refine Transcript.IsQuiet.bind ⟨rfl, rfl⟩ fun _ => ?_
              exact (ih w').bind fun _ => ⟨rfl, rfl⟩
          | _ => exact ⟨rfl, rfl⟩

theorem isQuiet_firstModel (n : Nat) (cs : List Clause) : (firstModel n cs).IsQuiet := by
  refine Transcript.IsQuiet.bind ?_ fun w => ?_
  · unfold watch
    split <;> exact ⟨rfl, rfl⟩
  · exact (isQuiet_models 1 _).bind fun _ => ⟨rfl, rfl⟩

theorem result_models_one {w : Walk} (hw : w.trace.answer = .exhausted) :
    ∃ found, (models 1 w).result = .ok found ∧ found.head? = w.models.head? := by
  rw [models]
  cases hpull : w.pull with
  | mk answer w' =>
      by_cases hmodel : answer = .model
      · subst hmodel
        refine ⟨[w'.board.assignment], rfl, ?_⟩
        rw [Walk.models_eq, Walk.trace_of_model hpull]
        rfl
      · have htrace := Walk.trace_of_end hpull hmodel
        rw [htrace] at hw
        simp only at hw
        subst hw
        refine ⟨[], rfl, ?_⟩
        rw [Walk.models_eq, htrace]
        rfl

theorem result_firstModel {n : Nat} {cs : List Clause} (hcs : ∀ c ∈ cs, c.WellFormed n) :
    (firstModel n cs).result =
      .ok (Assignment.modelsOf cs (List.replicate n none)).head? := by
  obtain ⟨w₀, hw₀, hwatches⟩ := WatchList.Watches.exists_ofClauses? hcs
  have hlen : ([] : List Bool).length ≤ n := Nat.zero_le n
  have hboard : Board.IsValid n cs [] ⟨List.replicate n none, w₀⟩ := ⟨rfl, hwatches⟩
  obtain ⟨hanswer, -, hmodels⟩ := Walk.trace_spec hcs hlen hboard
  obtain ⟨found, hfound, hhead⟩ := result_models_one (w := start n w₀) hanswer
  have hwatch : (watch n cs).result = .ok w₀ := by rw [watch, hw₀]
  rw [firstModel, Transcript.result_bind_of_ok hwatch, Transcript.result_bind_of_ok hfound, hhead]
  exact congrArg (fun ms => Except.ok (List.head? ms)) hmodels

/-- A search for one model succeeds, with the least model or with none if there is none. -/
theorem firstModel_cases {n : Nat} {cs : List Clause} (hcs : ∀ c ∈ cs, c.WellFormed n) :
    (∃ m, (firstModel n cs).result = .ok (some m) ∧ m.IsLeastModel n cs) ∨
    ((firstModel n cs).result = .ok none ∧ ¬∃ m, Assignment.IsModel n cs m) := by
  rw [result_firstModel hcs]
  cases h : (Assignment.modelsOf cs (List.replicate n none)).head? with
  | some m => exact .inl ⟨m, rfl, Assignment.isLeastModel_of_head? h⟩
  | none =>
      refine .inr ⟨rfl, ?_⟩
      rintro ⟨m, hm⟩
      have hmem := Assignment.mem_modelsOf_replicate_none.2 hm
      rw [List.head?_eq_none_iff] at h
      rw [h] at hmem
      exact List.not_mem_nil hmem

end Search

end CnfSolver
