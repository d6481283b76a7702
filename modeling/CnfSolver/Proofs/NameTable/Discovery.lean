import CnfSolver.Proofs.Assignment.Truth
import CnfSolver.Proofs.NameTable.Consistency

/-!
# Numbers in the order of discovery

Read in order, the variables of the clauses that a table encodes are numbered without gaps: each is
one that has come up before or the next one. Such a reading goes on from where the last one stopped,
and its first occurrences are the numbers from zero on.
-/

namespace CnfSolver

/-! ## First occurrences -/

section

variable {α : Type} [BEq α] [LawfulBEq α] {xs : List α}

theorem eraseDups_of_nodup (h : xs.Nodup) : xs.eraseDups = xs := by
  induction xs with
  | nil => rfl
  | cons x xs ih =>
      obtain ⟨hx, hxs⟩ := List.nodup_cons.1 h
      have hfilter : xs.filter (fun y => !y == x) = xs := by
        rw [List.filter_eq_self]
        intro y hy
        have hne : y ≠ x := fun h => hx (h ▸ hy)
        simp [hne]
      rw [List.eraseDups_cons, hfilter, ih hxs]

theorem eraseDups_append_cons {ys : List α} {y : α} (h : y ∈ xs) :
    (xs ++ y :: ys).eraseDups = (xs ++ ys).eraseDups := by
  have hremove : (y :: ys).removeAll xs = ys.removeAll xs := by
    simp [List.removeAll, h]
  rw [List.eraseDups_append, List.eraseDups_append, hremove]

end

/-- Read in order, the variables are among the first `n` ones or the next new one, and `m` are known
at the end. -/
inductive Discovers : Nat → List Int → Nat → Prop
  | nil (n : Nat) : Discovers n [] n
  | known {n m : Nat} {v : Int} {vs : List Int} (hnonneg : 0 ≤ v) (hlt : v < n)
      (rest : Discovers n vs m) : Discovers n (v :: vs) m
  | new {n m : Nat} {vs : List Int} (rest : Discovers (n + 1) vs m) : Discovers n (n :: vs) m

namespace Discovers

variable {n m k : Nat} {vs ws : List Int}

theorem append (h : Discovers n vs m) (h' : Discovers m ws k) : Discovers n (vs ++ ws) k := by
  induction h with
  | nil => exact h'
  | known hnonneg hlt _ ih => exact .known hnonneg hlt (ih h')
  | new _ ih => exact .new (ih h')

theorem le (h : Discovers n vs m) : n ≤ m := by
  induction h with
  | nil => exact Nat.le_refl _
  | known _ _ _ ih => exact ih
  | new _ ih => exact Nat.le_of_succ_le ih

theorem bounds (h : Discovers n vs m) : ∀ v ∈ vs, 0 ≤ v ∧ v < m := by
  induction h with
  | nil => simp
  | known hnonneg hlt rest ih =>
      have := rest.le
      exact List.forall_mem_cons.2 ⟨⟨hnonneg, by omega⟩, ih⟩
  | new rest ih =>
      have := rest.le
      exact List.forall_mem_cons.2 ⟨⟨Int.natCast_nonneg _, by omega⟩, ih⟩

theorem of_bounds (h : ∀ v ∈ vs, 0 ≤ v ∧ v < n) : Discovers n vs n := by
  induction vs with
  | nil => exact .nil n
  | cons v vs ih =>
      obtain ⟨⟨hnonneg, hlt⟩, hrest⟩ := List.forall_mem_cons.1 h
      exact .known hnonneg hlt (ih hrest)

/-! ## First occurrences -/

def numbers (n : Nat) : List Int := (List.range n).map fun (k : Nat) => (k : Int)

theorem nodup_numbers (n : Nat) : (numbers n).Nodup :=
  List.pairwise_map.2 (List.nodup_range.imp fun hne heq => hne (Int.natCast_inj.1 heq))

/-- The first occurrences among known and discovered variables are the numbers in order. -/
theorem eraseDups_eq (h : Discovers n vs m) : (numbers n ++ vs).eraseDups = numbers m := by
  induction h with
  | nil n => rw [List.append_nil, eraseDups_of_nodup (nodup_numbers n)]
  | @known n m v vs hnonneg hlt _ ih =>
      have hmem : v ∈ numbers n :=
        List.mem_map.2 ⟨v.toNat, List.mem_range.2 (by omega), by omega⟩
      rw [eraseDups_append_cons hmem, ih]
  | @new n m vs _ ih =>
      have hnext : numbers n ++ (n : Int) :: vs = numbers (n + 1) ++ vs := by
        simp [numbers, List.range_succ]
      rw [hnext, ih]

end Discovers

theorem Literal.inRange_iff_var {n : Nat} {l : Literal} :
    l.InRange n ↔ 0 ≤ l.var ∧ l.var < n := by
  simp only [InRange, var]
  omega

def variablesOf (cs : List Clause) : List Int := cs.flatten.map Literal.var

theorem variablesOf_append (cs ds : List Clause) :
    variablesOf (cs ++ ds) = variablesOf cs ++ variablesOf ds := by
  rw [variablesOf, List.flatten_append, List.map_append, variablesOf, variablesOf]

theorem inRange_iff_variablesOf {n : Nat} {cs : List Clause} :
    (∀ c ∈ cs, ∀ l ∈ c, l.InRange n) ↔ ∀ v ∈ variablesOf cs, 0 ≤ v ∧ v < n := by
  constructor
  · intro h v hv
    obtain ⟨l, hl, rfl⟩ := List.mem_map.1 hv
    obtain ⟨c, hc, hlc⟩ := List.mem_flatten.1 hl
    exact Literal.inRange_iff_var.1 (h c hc l hlc)
  · intro h c hc l hl
    exact Literal.inRange_iff_var.2
      (h l.var (List.mem_map.2 ⟨l, List.mem_flatten.2 ⟨c, hc, hl⟩, rfl⟩))

/-! ## What encoding discovers -/

namespace NameTable

variable {t : NameTable}

theorem IsConsistent.discovers_number (ht : t.IsConsistent) (name : String) {vs : List Int}
    {m : Nat} (hrest : Discovers (t.number name).1.size vs m) :
    Discovers t.size (((t.number name).2 : Int) :: vs) m := by
  rcases number_cases t name with ⟨i, hfind, heq⟩ | ⟨-, heq⟩
  · rw [heq] at hrest ⊢
    have hlt := ht.lt_size hfind
    exact .known (Int.natCast_nonneg i) (by simp only; omega) hrest
  · rw [heq] at hrest ⊢
    simp only [size, List.length_append, List.length_singleton] at hrest ⊢
    exact .new hrest

theorem IsConsistent.discovers_encode (ht : t.IsConsistent)
    (names : List (Except Error SignedName)) {clause : Clause}
    (h : (t.encode names).2 = .ok clause) :
    Discovers t.size (clause.map Literal.var) (t.encode names).1.size := by
  induction names generalizing t clause with
  | nil =>
      obtain rfl : [] = clause := Except.ok.inj h
      exact .nil _
  | cons name rest ih =>
      obtain ⟨s, clause', rfl, hrest, rfl⟩ := encode_cons_eq_ok h
      rw [encode_cons_ok, List.map_cons, Literal.var_of]
      exact ht.discovers_number s.name (ih (ht.number s.name) hrest)

theorem IsConsistent.discovers_encodeAll (ht : t.IsConsistent)
    (clauses : List (List (Except Error SignedName))) {cs : List Clause}
    (h : (t.encodeAll clauses).2 = .ok cs) :
    Discovers t.size (variablesOf cs) (t.encodeAll clauses).1.size := by
  induction clauses generalizing t cs with
  | nil =>
      obtain rfl : [] = cs := Except.ok.inj h
      exact .nil _
  | cons names rest ih =>
      obtain ⟨clause, cs', hfirst, hrest, rfl⟩ := encodeAll_cons_eq_ok h
      rw [encodeAll_cons_of_ok hfirst, variablesOf, List.flatten_cons, List.map_append]
      exact (ht.discovers_encode names hfirst).append (ih (ht.encode names) hrest)

end NameTable

end CnfSolver
