import CnfSolver.Proofs.Assignment.Completion
import Mathlib.Data.List.Perm.Basic
import Mathlib.Data.Set.Card

/-!
# First false prefixes

Values for the first variables may make a clause false. The shortest such prefixes cut the tree of
assignments: each branch holds those of its two halves, and where a clause is false already the
branch holds just that one point. Which prefixes these are does not depend on the order of the
clauses or of their literals.
-/

namespace CnfSolver

open Assignment (ofValues)

def Falsifies (n : Nat) (cs : List Clause) (values : List Bool) : Prop :=
  ∃ c ∈ cs, c.AllFalse (ofValues n values)

/-- Values for some of the first variables make a clause false that no fewer of them do. -/
structure IsFirstFalse (n : Nat) (cs : List Clause) (p : List Bool) : Prop where
  ne_nil : p ≠ []
  length_le : p.length ≤ n
  falsifies : Falsifies n cs p
  first : ∀ q, q <+: p → q ≠ p → ¬Falsifies n cs q

/-- The same clauses in another order, each with its literals in another order. -/
def Reorders (cs cs' : List Clause) : Prop := ∃ ds, List.Forall₂ List.Perm cs ds ∧ ds.Perm cs'

/-! ## Other orders -/

section Reorders

variable {n : Nat} {cs cs' : List Clause}

theorem Clause.AllFalse.of_perm {a : Assignment} {c c' : Clause} (h : c.AllFalse a)
    (hperm : c.Perm c') : c'.AllFalse a :=
  fun l hl => h l (hperm.mem_iff.2 hl)

theorem Clause.WellFormed.of_perm {c c' : Clause} (h : c.WellFormed n) (hperm : c.Perm c') :
    c'.WellFormed n where
  ne_nil hnil := h.ne_nil (List.perm_nil.1 (hnil ▸ hperm))
  inRange l hl := h.inRange l (hperm.mem_iff.2 hl)

theorem Reorders.symm (h : Reorders cs cs') : Reorders cs' cs := by
  obtain ⟨ds, hds, hperm⟩ := h
  -- on the way back the list is reordered before its clauses are
  have hback : List.Forall₂ List.Perm ds cs := hds.flip.imp fun _ _ h => h.symm
  obtain ⟨es, hes, hperm'⟩ := List.perm_comp_forall₂ hperm.symm hback
  exact ⟨es, hes, hperm'⟩

theorem Reorders.exists_perm_of_mem (h : Reorders cs cs') {c : Clause} (hc : c ∈ cs) :
    ∃ c' ∈ cs', c.Perm c' := by
  obtain ⟨ds, hds, hperm⟩ := h
  obtain ⟨k, hk, rfl⟩ := List.mem_iff_getElem.1 hc
  have hkd : k < ds.length := by rw [← hds.length_eq]; exact hk
  exact ⟨ds[k], hperm.mem_iff.1 (List.getElem_mem hkd), hds.get hk hkd⟩

theorem Reorders.wellFormed (h : Reorders cs cs') (hcs : ∀ c ∈ cs, c.WellFormed n) :
    ∀ c ∈ cs', c.WellFormed n := by
  intro c' hc'
  obtain ⟨c, hc, hperm⟩ := h.symm.exists_perm_of_mem hc'
  exact (hcs c hc).of_perm hperm.symm

theorem Falsifies.of_reorders {values : List Bool} (hfalse : Falsifies n cs values)
    (h : Reorders cs cs') : Falsifies n cs' values := by
  obtain ⟨c, hc, hfalse⟩ := hfalse
  obtain ⟨c', hc', hperm⟩ := h.exists_perm_of_mem hc
  exact ⟨c', hc', hfalse.of_perm hperm⟩

theorem IsFirstFalse.of_reorders {p : List Bool} (hp : IsFirstFalse n cs p)
    (h : Reorders cs cs') : IsFirstFalse n cs' p where
  ne_nil := hp.ne_nil
  length_le := hp.length_le
  falsifies := hp.falsifies.of_reorders h
  first q hq hqp hfalse := hp.first q hq hqp (hfalse.of_reorders h.symm)

theorem Reorders.firstFalse_eq (h : Reorders cs cs') :
    {p | IsFirstFalse n cs p} = {p | IsFirstFalse n cs' p} :=
  Set.ext fun _ => ⟨fun hp => hp.of_reorders h, fun hp => hp.of_reorders h.symm⟩

end Reorders

/-! ## The first false prefixes of a branch -/

def firstFalse (n : Nat) (cs : List Clause) (values : List Bool) : Set (List Bool) :=
  {p | values <+: p ∧ IsFirstFalse n cs p}

section FirstFalse

variable {n : Nat} {cs : List Clause} {values : List Bool}

theorem Falsifies.concat (h : Falsifies n cs values) (hlt : values.length < n) (value : Bool) :
    Falsifies n cs (values ++ [value]) := by
  obtain ⟨c, hc, hfalse⟩ := h
  exact ⟨c, hc, hfalse.of_extends (Assignment.extends_ofValues_concat hlt value)⟩

theorem Falsifies.of_prefix {q : List Bool} (h : Falsifies n cs q) (hq : q <+: values)
    (hlen : values.length ≤ n) : Falsifies n cs values := by
  obtain ⟨rest, rfl⟩ := hq
  induction rest generalizing q with
  | nil => rwa [List.append_nil]
  | cons value rest ih =>
      have heq : q ++ value :: rest = q ++ [value] ++ rest := by simp
      have hlt : q.length < n := by
        rw [List.length_append, List.length_cons] at hlen
        omega
      rw [heq] at hlen ⊢
      exact ih (h.concat hlt value) hlen

theorem isFirstFalse_concat {value : Bool} (hnot : ¬Falsifies n cs values)
    (hlt : values.length < n) (h : Falsifies n cs (values ++ [value])) :
    IsFirstFalse n cs (values ++ [value]) where
  ne_nil := List.concat_ne_nil value values
  length_le := by
    rw [List.length_append, List.length_singleton]
    exact hlt
  falsifies := h
  first q hq hne hfalse := by
    rcases List.prefix_concat_iff.1 hq with heq | hq
    · exact hne heq
    · exact hnot (hfalse.of_prefix hq (Nat.le_of_lt hlt))

theorem firstFalse_nil (n : Nat) (cs : List Clause) :
    firstFalse n cs [] = {p | IsFirstFalse n cs p} := by
  ext p
  exact and_iff_right (List.nil_prefix)

theorem firstFalse_eq_singleton (hvalues : IsFirstFalse n cs values) :
    firstFalse n cs values = {values} := by
  ext p
  constructor
  · rintro ⟨hstarts, hp⟩
    by_contra hne
    exact hp.first values hstarts (Ne.symm hne) hvalues.falsifies
  · rintro rfl
    exact ⟨List.prefix_refl _, hvalues⟩

theorem firstFalse_of_length_eq (hlen : values.length = n) (hnot : ¬Falsifies n cs values) :
    firstFalse n cs values = ∅ := by
  rw [Set.eq_empty_iff_forall_notMem]
  rintro p ⟨hstarts, hp⟩
  have heq : values = p := hstarts.eq_of_length_le (by rw [hlen]; exact hp.length_le)
  exact hnot (heq ▸ hp.falsifies)

theorem firstFalse_eq_union (hnot : ¬Falsifies n cs values) :
    firstFalse n cs values =
      firstFalse n cs (values ++ [false]) ∪ firstFalse n cs (values ++ [true]) := by
  ext p
  constructor
  · rintro ⟨⟨rest, rfl⟩, hp⟩
    cases rest with
    | nil => exact absurd (by simpa using hp.falsifies) hnot
    | cons value rest =>
        have hstarts : values ++ [value] <+: values ++ value :: rest := ⟨rest, by simp⟩
        cases value with
        | false => exact .inl ⟨hstarts, hp⟩
        | true => exact .inr ⟨hstarts, hp⟩
  · rintro (⟨hstarts, hp⟩ | ⟨hstarts, hp⟩)
    · exact ⟨(List.prefix_append _ _).trans hstarts, hp⟩
    · exact ⟨(List.prefix_append _ _).trans hstarts, hp⟩

theorem not_mem_firstFalse_true {p : List Bool} (hp : p ∈ firstFalse n cs (values ++ [false])) :
    p ∉ firstFalse n cs (values ++ [true]) := by
  obtain ⟨⟨rest, rfl⟩, -⟩ := hp
  rintro ⟨⟨rest', heq⟩, -⟩
  simp at heq

theorem encard_firstFalse (hnot : ¬Falsifies n cs values) :
    (firstFalse n cs values).encard =
      (firstFalse n cs (values ++ [false])).encard +
        (firstFalse n cs (values ++ [true])).encard := by
  rw [firstFalse_eq_union hnot]
  apply Set.encard_union_eq
  exact Set.disjoint_left.2 fun _ => not_mem_firstFalse_true

end FirstFalse

end CnfSolver
