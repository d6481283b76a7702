/-!
# Indices counted from either end

In a list of length `n` an index names a place counted from the front when it is not negative,
and a place counted from the back when it is. Outside `[-n, n)` it names nothing.
-/

namespace CnfSolver.Index

variable {α : Type}

/-- The place, counted from the front, that `i` names among `n`. -/
def place? (n : Nat) (i : Int) : Option Nat :=
  if 0 ≤ i then
    if i < n then some i.toNat else none
  else
    if 0 ≤ i + n then some (i + n).toNat else none

def get? (xs : List α) (i : Int) : Option α :=
  (place? xs.length i).bind fun k => xs[k]?

def modify? (xs : List α) (i : Int) (f : α → α) : Option (List α) :=
  (place? xs.length i).map fun k => xs.modify k f

def set? (xs : List α) (i : Int) (x : α) : Option (List α) :=
  (place? xs.length i).map fun k => xs.set k x

theorem place?_eq_some {n : Nat} {i : Int} {k : Nat} :
    place? n i = some k ↔ k < n ∧ (i = k ∨ i + n = k) := by
  unfold place?
  split
  · split <;> simp only [Option.some.injEq, reduceCtorEq, false_iff] <;> omega
  · split <;> simp only [Option.some.injEq, reduceCtorEq, false_iff] <;> omega

theorem place?_eq_none {n : Nat} {i : Int} : place? n i = none ↔ i < -n ∨ n ≤ i := by
  unfold place?
  split
  · split <;> simp only [reduceCtorEq, false_iff, true_iff] <;> omega
  · split <;> simp only [reduceCtorEq, false_iff, true_iff] <;> omega

theorem exists_place {n : Nat} {i : Int} (hlow : -(n : Int) ≤ i) (hhigh : i < n) :
    ∃ k, place? n i = some k := by
  cases hplace : place? n i with
  | some k => exact ⟨k, rfl⟩
  | none =>
      have := place?_eq_none.1 hplace
      omega

theorem place?_natCast {n k : Nat} (h : k < n) : place? n (k : Int) = some k :=
  place?_eq_some.2 ⟨h, .inl rfl⟩

theorem length_of_modify? {xs ys : List α} {i : Int} {f : α → α}
    (h : modify? xs i f = some ys) : ys.length = xs.length := by
  obtain ⟨k, -, rfl⟩ := Option.map_eq_some_iff.1 h
  exact List.length_modify ..

theorem length_of_set? {xs ys : List α} {i : Int} {x : α}
    (h : set? xs i x = some ys) : ys.length = xs.length := by
  obtain ⟨k, -, rfl⟩ := Option.map_eq_some_iff.1 h
  exact List.length_set

theorem lt_length_of_set? {xs ys : List α} {i : Int} {x : α}
    (h : set? xs i x = some ys) : i < xs.length := by
  obtain ⟨k, hk, -⟩ := Option.map_eq_some_iff.1 h
  have := place?_eq_some.1 hk
  omega

end CnfSolver.Index
