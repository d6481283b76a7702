import CnfSolver.Proofs.NameTable.Discovery
import CnfSolver.Proofs.Solution.Line
import Mathlib.Data.List.Zip

/-!
# Values by name

The values are put in one by one, and a name that comes up again keeps its place and takes the new
value. So the names stand in the order of their first occurrences, each once, and each has the value
of its last occurrence. These two facts leave no choice.
-/

namespace CnfSolver.Solution

def IsLast (pairs : List (String × Option Int)) (name : String) (value : Option Int) : Prop :=
  ∃ before after, pairs = before ++ (name, value) :: after ∧ name ∉ after.map Prod.fst

theorem not_isLast_nil (name : String) (value : Option Int) : ¬IsLast [] name value := by
  rintro ⟨before, after, h, -⟩
  exact List.append_ne_nil_of_right_ne_nil before (List.cons_ne_nil _ after) h.symm

theorem isLast_concat (pairs : List (String × Option Int)) (name other : String)
    (value last : Option Int) :
    IsLast (pairs ++ [(other, last)]) name value ↔
      name = other ∧ value = last ∨ name ≠ other ∧ IsLast pairs name value := by
  constructor
  · rintro ⟨before, after, h, hafter⟩
    rcases List.eq_nil_or_concat' after with rfl | ⟨after, pair, rfl⟩
    · obtain ⟨-, hpair⟩ := List.append_inj' h rfl
      cases hpair
      exact .inl ⟨rfl, rfl⟩
    · rw [← List.cons_append, ← List.append_assoc] at h
      obtain ⟨rfl, hpair⟩ := List.append_inj' h rfl
      cases hpair
      rw [List.map_append, List.mem_append, not_or] at hafter
      exact .inr ⟨fun h => hafter.2 (List.mem_singleton.2 h), before, after, rfl, hafter.1⟩
  · rintro (⟨rfl, rfl⟩ | ⟨hne, before, after, rfl, hafter⟩)
    · exact ⟨pairs, [], rfl, List.not_mem_nil⟩
    · refine ⟨before, after ++ [(other, last)], by rw [List.append_assoc, List.cons_append], ?_⟩
      rw [List.map_append, List.mem_append, not_or]
      exact ⟨hafter, fun h => hne (List.mem_singleton.1 h)⟩

/-! ## One value more -/

theorem any_fst_iff {entries : List (String × Option Int)} {name : String} :
    (entries.any fun entry => entry.1 == name) = true ↔ name ∈ entries.map Prod.fst := by
  rw [List.any_eq_true, List.mem_map]
  exact exists_congr fun entry => and_congr_right' beq_iff_eq

theorem put_of_mem {entries : List (String × Option Int)} {name : String}
    (h : name ∈ entries.map Prod.fst) (value : Option Int) :
    put entries name value =
      entries.map fun entry => if entry.1 = name then (name, value) else entry :=
  if_pos (any_fst_iff.2 h)

theorem map_fst_put (entries : List (String × Option Int)) (name : String) (value : Option Int) :
    (put entries name value).map Prod.fst =
      if name ∈ entries.map Prod.fst then entries.map Prod.fst
      else entries.map Prod.fst ++ [name] := by
  split
  · next h =>
    rw [put_of_mem h, List.map_map]
    apply List.map_congr_left
    intro entry _
    by_cases hentry : entry.1 = name
    · simp [hentry]
    · simp [hentry]
  · next h =>
    rw [put_of_notMem h, List.map_append, List.map_singleton]

theorem mem_put {entries : List (String × Option Int)} {name other : String}
    {value last : Option Int} :
    (name, value) ∈ put entries other last ↔
      name = other ∧ value = last ∨ name ≠ other ∧ (name, value) ∈ entries := by
  by_cases h : other ∈ entries.map Prod.fst
  · rw [put_of_mem h, List.mem_map]
    constructor
    · rintro ⟨entry, hentry, heq⟩
      by_cases hname : entry.1 = other
      · rw [if_pos hname] at heq
        cases heq
        exact .inl ⟨rfl, rfl⟩
      · rw [if_neg hname] at heq
        subst heq
        exact .inr ⟨hname, hentry⟩
    · rintro (⟨rfl, rfl⟩ | ⟨hne, hmem⟩)
      · obtain ⟨entry, hentry, hname⟩ := List.mem_map.1 h
        exact ⟨entry, hentry, if_pos hname⟩
      · exact ⟨_, hmem, if_neg hne⟩
  · have hne : (name, value) ∈ entries → name ≠ other := by
      rintro hmem rfl
      exact h (List.mem_map_of_mem hmem)
    rw [put_of_notMem h, List.mem_append, List.mem_singleton, Prod.mk.injEq]
    tauto

/-! ## All values -/

/-- `entries` has the names of the pairs in the order of their first occurrences, with the values of
their last ones. -/
structure IsObjectOf (pairs entries : List (String × Option Int)) : Prop where
  names : entries.map Prod.fst = (pairs.map Prod.fst).eraseDups
  mem_iff : ∀ name value, (name, value) ∈ entries ↔ IsLast pairs name value

theorem eraseDups_concat (names : List String) (name : String) :
    (names ++ [name]).eraseDups =
      if name ∈ names.eraseDups then names.eraseDups else names.eraseDups ++ [name] := by
  rw [List.eraseDups_append]
  split
  · next h => simp [List.removeAll, List.mem_eraseDups.1 h]
  · next h => simp [List.removeAll, mt List.mem_eraseDups.2 h, List.eraseDups_cons]

theorem IsObjectOf.put {pairs entries : List (String × Option Int)} (h : IsObjectOf pairs entries)
    (name : String) (value : Option Int) :
    IsObjectOf (pairs ++ [(name, value)]) (put entries name value) where
  names := by
    rw [map_fst_put, h.names, List.map_append, List.map_singleton, eraseDups_concat]
  mem_iff other last := by
    rw [mem_put, isLast_concat, h.mem_iff]

theorem IsObjectOf.foldl {pairs entries : List (String × Option Int)} (h : IsObjectOf pairs entries)
    (more : List (String × Option Int)) :
    IsObjectOf (pairs ++ more)
      (more.foldl (fun entries (name, value) => Solution.put entries name value) entries) := by
  induction more generalizing pairs entries with
  | nil => rwa [List.append_nil]
  | cons pair more ih =>
    rw [← List.singleton_append, ← List.append_assoc]
    exact ih (h.put pair.1 pair.2)

theorem isObjectOf_entriesOf (names : List String) (a : Assignment) :
    IsObjectOf (names.zip a) (entriesOf names a) := by
  have hnil : IsObjectOf [] [] := by
    refine ⟨rfl, fun name value => ?_⟩
    exact iff_of_false List.not_mem_nil (not_isLast_nil name value)
  exact hnil.foldl (names.zip a)

theorem map_fst_zip_eq_take (names : List String) (a : Assignment) :
    (names.zip a).map Prod.fst = names.take (min names.length a.length) := by
  rw [List.zip_eq_zip_take_min, List.map_fst_zip]
  simp

end CnfSolver.Solution
