import CnfSolver.Proofs.NameTable.Growth

/-!
# Consistent name tables

A table keeps its names twice, as a list and as a look-up. The two say the same as long as the table
has only been numbering names, and then no name occurs twice.
-/

namespace CnfSolver.NameTable

/-- Looking up a name gives its place in the list of names, and nothing for any other name. -/
def IsConsistent (t : NameTable) : Prop :=
  ∀ name i, t.find? name = some i ↔ t.names[i]? = some name

variable {t : NameTable}

theorem isConsistent_empty : empty.IsConsistent := by
  intro name i
  constructor <;> exact fun h => nomatch h

theorem find?_concat (t : NameTable) (name name' : String) :
    find? ⟨t.names ++ [name], t.numbers ++ [(name, t.size)]⟩ name' =
      (t.find? name').or (if name' = name then some t.size else none) := by
  rw [find?, find?, List.lookup_append, List.lookup_cons, List.lookup_nil]
  by_cases h : name' = name
  · simp [h]
  · simp only [beq_eq_false_iff_ne.2 h, if_neg h]

theorem getElem?_concat (t : NameTable) (name : String) (i : Nat) :
    (t.names ++ [name])[i]? = if i = t.size then some name else t.names[i]? := by
  by_cases hi : i = t.size
  · rw [if_pos hi, hi]
    exact List.getElem?_concat_length
  · rw [if_neg hi]
    by_cases hlt : i < t.size
    · exact List.getElem?_append_left hlt
    · have hgt : t.names.length < i := by
        unfold size at hi hlt
        omega
      rw [List.getElem?_eq_none (Nat.le_of_lt hgt), List.getElem?_eq_none]
      rw [List.length_append]
      exact hgt

namespace IsConsistent

theorem lt_size (ht : t.IsConsistent) {name : String} {i : Nat} (h : t.find? name = some i) :
    i < t.size :=
  (List.getElem?_eq_some_iff.1 ((ht name i).1 h)).1

theorem nodup (ht : t.IsConsistent) : t.names.Nodup := by
  rw [List.nodup_iff_pairwise_ne, List.pairwise_iff_getElem]
  intro i j hi hj hlt heq
  have hfind := (ht t.names[i] i).2 (List.getElem?_eq_getElem hi)
  have hfind' := (ht t.names[i] j).2 (by rw [heq]; exact List.getElem?_eq_getElem hj)
  rw [hfind, Option.some.injEq] at hfind'
  omega

theorem find?_eq_none_iff (ht : t.IsConsistent) {name : String} :
    t.find? name = none ↔ name ∉ t.names := by
  rw [List.mem_iff_getElem?, Option.eq_none_iff_forall_ne_some, not_exists]
  exact forall_congr' fun i => not_congr (ht name i)

theorem number (ht : t.IsConsistent) (name : String) : (t.number name).1.IsConsistent := by
  rcases number_cases t name with ⟨i, -, heq⟩ | ⟨hnone, heq⟩
  · rw [heq]
    exact ht
  · rw [heq]
    intro name' i
    rw [find?_concat, getElem?_concat]
    by_cases hname : name' = name
    · subst hname
      have hnot : t.names[i]? ≠ some name' := by
        rw [Ne, ← ht, hnone]
        simp
      rw [hnone, if_pos rfl, Option.none_or, Option.some.injEq]
      by_cases hi : i = t.size
      · simp [hi]
      · rw [if_neg hi]
        exact ⟨fun h => absurd h.symm hi, fun h => absurd h hnot⟩
    · rw [if_neg hname, Option.or_none, ht]
      by_cases hi : i = t.size
      · rw [if_pos hi, hi, size, List.getElem?_eq_none (Nat.le_refl _)]
        simp [Ne.symm hname]
      · rw [if_neg hi]

theorem encode (ht : t.IsConsistent) (names : List (Except Error SignedName)) :
    (t.encode names).1.IsConsistent :=
  encode_induct (fun _ s _ h => h.number s.name) ht

theorem encodeAll (ht : t.IsConsistent) (clauses : List (List (Except Error SignedName))) :
    (t.encodeAll clauses).1.IsConsistent :=
  encodeAll_induct (fun _ s _ h => h.number s.name) ht

end IsConsistent

end CnfSolver.NameTable
