import CnfSolver.Proofs.Search.FirstModel
import CnfSolver.Proofs.Traversal
import CnfSolver.TruthTable
import Mathlib.Data.Nat.Init

/-!
# Truth tables and models

A row of a truth table is an assignment to all variables, each such assignment is a row, and a row
satisfies the columns of the clauses just when the assignment satisfies the clauses. So for clauses
on at most 20 variables the table has a first satisfying row just when there is a model.
-/

namespace CnfSolver.TruthTable

/-! ## Rows as assignments -/

theorem length_row (n r : Nat) : (row n r).length = n := by
  rw [row, List.length_map, List.length_range]

theorem getElem?_row {n k : Nat} (h : k < n) (r : Nat) :
    (row n r)[k]? = some (some (r.testBit k).toInt) := by
  rw [row, List.getElem?_map, List.getElem?_range h, Option.map_some]

theorem isTotal_row (n r : Nat) : (row n r).IsTotal := by
  intro x hx
  obtain ⟨k, -, rfl⟩ := List.mem_map.1 hx
  cases r.testBit k with
  | false => exact .inl rfl
  | true => exact .inr rfl

theorem exists_row {n : Nat} {m : Assignment} (hlength : m.length = n) (hm : m.IsTotal) :
    ∃ r, r < Nat.pow 2 n ∧ row n r = m := by
  obtain ⟨values, rfl⟩ := Assignment.exists_ofValues_of_isTotal hm
  rw [List.length_map] at hlength
  subst hlength
  refine ⟨Nat.ofBits fun k : Fin values.length => values[k], Nat.ofBits_lt_two_pow _, ?_⟩
  apply List.ext_getElem
  · rw [length_row, List.length_map]
  · intro k hk _
    rw [length_row] at hk
    simp only [row, List.getElem_map, List.getElem_range, Nat.testBit_ofBits_lt _ k hk]
    rfl

/-! ## Satisfying rows -/

theorem isTrue?_of_column {n k : Nat} {l : Literal} {negated : Bool}
    (h : column n l = .ok (k, negated)) (r : Nat) :
    l.isTrue? (row n r) = some (r.testBit k != negated) := by
  unfold column at h
  split at h
  · next j hplace =>
    obtain ⟨rfl, rfl⟩ := Prod.mk.inj (Except.ok.inj h)
    have hj := (Index.place?_eq_some.1 hplace).1
    rw [Literal.isTrue?, Index.get?, length_row, hplace, Option.bind_some, getElem?_row hj,
      Option.map_some, Option.any_some, Literal.isNegated]
    rcases l.sign_eq_zero_or_one with hsign | hsign <;> cases r.testBit j <;> simp [hsign]
  · cases h

theorem isTrue?_of_mapM_column {n : Nat} {c : Clause} {cols : List (Nat × Bool)}
    (h : c.mapM (column n) = .ok cols) (r : Nat) :
    c.isTrue? (row n r) = some (rowSatisfies r cols) := by
  induction c generalizing cols with
  | nil =>
      obtain rfl : [] = cols := Except.ok.inj h
      rfl
  | cons l ls ih =>
      obtain ⟨⟨k, negated⟩, cols', hl, hls, rfl⟩ := mapM_ok_cons_iff.1 h
      rw [Clause.isTrue?, isTrue?_of_column hl r]
      cases hbit : r.testBit k != negated with
      | true => simp [rowSatisfies, hbit]
      | false => simp [rowSatisfies, hbit, ih hls]

theorem isTrue?_of_columns {n : Nat} {c : Clause} {cols : List (Nat × Bool)}
    (h : columns n c = .ok cols) (r : Nat) :
    c.isTrue? (row n r) = some (rowSatisfies r cols) := by
  unfold columns at h
  split at h
  · exact isTrue?_of_mapM_column h r
  · cases h

/-- The columns of the clauses say of each row whether it satisfies the clauses. -/
theorem satisfies?_row {n : Nat} {cs : List Clause} {table : List (List (Nat × Bool))}
    (h : cs.mapM (columns n) = .ok table) (r : Nat) :
    satisfies? (row n r) cs = some (table.all (rowSatisfies r)) := by
  induction cs generalizing table with
  | nil =>
      obtain rfl : [] = table := Except.ok.inj h
      rfl
  | cons c cs ih =>
      obtain ⟨cols, table', hc, hcs, rfl⟩ := mapM_ok_cons_iff.1 h
      rw [satisfies?, isTrue?_of_columns hc r, List.all_cons]
      cases rowSatisfies r cols with
      | true => simp only [ih hcs, Bool.true_and]
      | false => rfl

/-! ## Tables of clauses on the variables -/

/-- The literal fits into 64 bits, and its variable is one of `n`, counted from either end. -/
def HasColumn (n : Nat) (l : Literal) : Prop := Fits64 l.code ∧ -(n : Int) ≤ l.var ∧ l.var < n

instance (n : Nat) (l : Literal) : Decidable (HasColumn n l) :=
  inferInstanceAs (Decidable (_ ∧ _ ∧ _))

theorem column_of_hasColumn {n : Nat} {l : Literal} (h : HasColumn n l) :
    ∃ k, column n l = .ok (k, l.isNegated) := by
  obtain ⟨-, hlow, hhigh⟩ := h
  obtain ⟨k, hplace⟩ := Index.exists_place hlow hhigh
  exact ⟨k, by rw [column, hplace]⟩

theorem columns_of_hasColumn {n : Nat} {c : Clause} (h : ∀ l ∈ c, HasColumn n l) :
    ∃ cols, columns n c = .ok cols := by
  rw [columns, if_pos fun l hl => (h l hl).1]
  apply exists_mapM_eq_ok
  intro l hl
  obtain ⟨k, hk⟩ := column_of_hasColumn (h l hl)
  exact ⟨_, hk⟩

theorem hasColumn_of_inRange {n : Nat} {l : Literal} (hn : n ≤ limit) (hl : l.InRange n) :
    HasColumn n l := by
  obtain ⟨k, hk, hvar⟩ := hl.exists_var
  obtain ⟨h₀, h₁⟩ := hl
  unfold limit at hn
  exact ⟨⟨by omega, by omega⟩, by omega, by omega⟩

theorem eq_nil_of_wellFormed_zero {cs : List Clause} (hcs : ∀ c ∈ cs, c.WellFormed 0) :
    cs = [] := by
  rw [List.eq_nil_iff_forall_not_mem]
  intro c hc
  obtain ⟨l, hl⟩ := List.exists_mem_of_ne_nil c (hcs c hc).ne_nil
  obtain ⟨k, hk, -⟩ := ((hcs c hc).inRange l hl).exists_var
  exact Nat.not_lt_zero k hk

/-- A table with all its columns gives the first row that satisfies the clauses, if there is one. -/
theorem firstAmong_of_hasColumn {n : Nat} {cs : List Clause} (rows : Nat)
    (hcs : ∀ c ∈ cs, ∀ l ∈ c, HasColumn n l) :
    (∃ r < rows, firstAmong n rows cs = .ok (some (row n r)) ∧
      satisfies? (row n r) cs = some true ∧ ∀ r' < r, satisfies? (row n r') cs = some false) ∨
    (firstAmong n rows cs = .ok none ∧ ∀ r < rows, satisfies? (row n r) cs = some false) := by
  obtain ⟨table, htable⟩ := exists_mapM_eq_ok fun c hc => columns_of_hasColumn (hcs c hc)
  have hrow : ∀ r, satisfies? (row n r) cs = some (table.all (rowSatisfies r)) :=
    satisfies?_row htable
  have hfirst : firstAmong n rows cs =
      .ok (((List.range rows).find? fun r => table.all (rowSatisfies r)).map (row n)) := by
    rw [firstAmong, htable]
  rw [hfirst]
  simp only [hrow]
  cases hfind : (List.range rows).find? fun r => table.all (rowSatisfies r) with
  | some r =>
      obtain ⟨hsat, hlt, hleast⟩ := List.find?_range_eq_some.1 hfind
      refine .inl ⟨r, List.mem_range.1 hlt, rfl, congrArg some hsat, fun r' hr' => ?_⟩
      simpa using hleast r' hr'
  | none =>
      have hnone := List.find?_range_eq_none.1 hfind
      exact .inr ⟨rfl, fun r hr => congrArg some (by simpa using hnone r hr)⟩

/-- For clauses on at most 20 variables the table is made, and has a satisfying row just when there
is a model. -/
theorem firstRow_spec {n : Nat} {cs : List Clause} (hn : n ≤ limit)
    (hcs : ∀ c ∈ cs, c.WellFormed n) :
    ∃ first, firstRow n cs = .ok first ∧
      (first.isSome = true ↔ ∃ m, Assignment.IsModel n cs m) := by
  rw [firstRow, if_neg (by omega)]
  by_cases hzero : n = 0
  · subst hzero
    obtain rfl := eq_nil_of_wellFormed_zero hcs
    refine ⟨some [], rfl, fun _ => ⟨[], rfl, fun x hx => absurd hx List.not_mem_nil, rfl⟩,
      fun _ => rfl⟩
  · rw [if_neg hzero]
    have hcolumns : ∀ c ∈ cs, ∀ l ∈ c, HasColumn n l :=
      fun c hc l hl => hasColumn_of_inRange hn ((hcs c hc).inRange l hl)
    rcases firstAmong_of_hasColumn (Nat.pow 2 n) hcolumns with ⟨r, -, hok, hsat, -⟩ | ⟨hok, hnone⟩
    · refine ⟨_, hok, fun _ => ?_, fun _ => rfl⟩
      exact ⟨row n r, length_row n r, isTotal_row n r, hsat⟩
    · refine ⟨_, hok, fun h => (nomatch h), ?_⟩
      rintro ⟨m, hm⟩
      obtain ⟨r, hr, rfl⟩ := exists_row hm.length_eq hm.isTotal
      have hfalse := (hnone r hr).symm.trans hm.satisfies
      exact nomatch hfalse

end CnfSolver.TruthTable
