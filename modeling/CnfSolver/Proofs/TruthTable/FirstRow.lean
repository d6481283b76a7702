import CnfSolver.Proofs.TruthTable

/-!
# The first satisfying row

With columns for all literals a table gives the first row that satisfies the clauses. Otherwise the
first clause with a literal that has no column says what the table fails with, whether or not the
clauses before it leave any row.
-/

namespace CnfSolver.TruthTable

/-! ## Literals without a column -/

variable {n : Nat} {c : Clause} {cs : List Clause}

def missingColumn (c : Clause) : Error :=
  if ∃ l ∈ c, ¬Fits64 l.code then .tooWide else .indexOutOfRange

theorem column_of_not_hasColumn {l : Literal} (hfits : Fits64 l.code) (h : ¬HasColumn n l) :
    column n l = .error .indexOutOfRange := by
  have hvar : ¬(-(n : Int) ≤ l.var ∧ l.var < n) := fun hvar => h ⟨hfits, hvar⟩
  have hplace : Index.place? n l.var = none := Index.place?_eq_none.2 (by omega)
  rw [column, hplace]

theorem columns_of_not_hasColumn (h : ∃ l ∈ c, ¬HasColumn n l) :
    columns n c = .error (missingColumn c) := by
  rw [columns, missingColumn]
  by_cases hfits : ∀ l ∈ c, Fits64 l.code
  · have hnone : ¬∃ l ∈ c, ¬Fits64 l.code := by
      rintro ⟨l, hl, hnot⟩
      exact hnot (hfits l hl)
    rw [if_pos hfits, if_neg hnone]
    -- all literals fit, so the first one without a column is on none of the variables
    obtain ⟨before, l, after, rfl, hbefore, hl⟩ := exists_first_not h
    have hl' : Fits64 l.code := hfits l (by simp)
    apply mapM_append_cons_of_error _ (column_of_not_hasColumn hl' hl)
    intro l' hmem
    obtain ⟨k, hk⟩ := column_of_hasColumn (hbefore l' hmem)
    exact ⟨_, hk⟩
  · have hsome : ∃ l ∈ c, ¬Fits64 l.code := by simpa using hfits
    rw [if_neg hfits, if_pos hsome]

/-! ## Tables -/

theorem firstRowOf_eq_firstAmong (hpos : 1 ≤ n) (hn : n ≤ limit) (cs : List Clause) :
    firstRowOf n cs = firstAmong n (Nat.pow 2 n) cs := by
  rw [firstRowOf, if_pos (Int.natCast_nonneg n), Int.toNat_natCast, firstRow, if_neg (by omega),
    if_neg (by omega)]

theorem firstAmong_of_not_hasColumn (rows : Nat) {before after : List Clause}
    (hbefore : ∀ c' ∈ before, ∀ l ∈ c', HasColumn n l) (hc : ∃ l ∈ c, ¬HasColumn n l) :
    firstAmong n rows (before ++ c :: after) = .error (missingColumn c) := by
  have htable : (before ++ c :: after).mapM (columns n) = .error (missingColumn c) := by
    apply mapM_append_cons_of_error _ (columns_of_not_hasColumn hc)
    exact fun c' hc' => columns_of_hasColumn (hbefore c' hc')
  rw [firstAmong, htable]

theorem getElem?_row_eq_bit {v : Nat} (hv : v < n) (r : Nat) :
    (row n r)[v]? = some (some ((r / 2 ^ v % 2 : Nat) : Int)) := by
  rw [getElem?_row hv, Nat.testBit_eq_decide_div_mod_eq]
  rcases Nat.mod_two_eq_zero_or_one (r / 2 ^ v) with hbit | hbit <;> simp [hbit]

/-- Over 1 to 20 variables a table fails just when some literal has no column, and the first clause
with such a literal says with what. Otherwise it gives the first row that satisfies the clauses, in
which the value of a variable is its bit, or none if there is no such row. -/
theorem firstRowOf_eq_first (hpos : 1 ≤ n) (hn : n ≤ 20) (cs : List Clause) :
    ((∃ e, firstRowOf n cs = .error e) ↔
      ∃ c ∈ cs, ∃ l ∈ c, ¬Fits64 l.code ∨ l.var < -(n : Int) ∨ (n : Int) ≤ l.var) ∧
    (∀ before c after, cs = before ++ c :: after → (∀ c' ∈ before, ∀ l ∈ c', HasColumn n l) →
      (∃ l ∈ c, ¬HasColumn n l) → firstRowOf n cs =
        .error (if ∃ l ∈ c, ¬Fits64 l.code then .tooWide else .indexOutOfRange)) ∧
    ((∀ c ∈ cs, ∀ l ∈ c, HasColumn n l) →
      (∃ r < 2 ^ n, firstRowOf n cs = .ok (some (row n r)) ∧
        satisfies? (row n r) cs = some true ∧ ∀ r' < r, satisfies? (row n r') cs = some false) ∨
      (firstRowOf n cs = .ok none ∧ ∀ r < 2 ^ n, satisfies? (row n r) cs = some false)) ∧
    ∀ r, (row n r).length = n ∧
      ∀ v < n, (row n r)[v]? = some (some ((r / 2 ^ v % 2 : Nat) : Int)) := by
  have hmissing : ∀ l : Literal,
      (¬Fits64 l.code ∨ l.var < -(n : Int) ∨ (n : Int) ≤ l.var) ↔ ¬HasColumn n l := by
    intro l
    rw [HasColumn, not_and_or, not_and_or, not_le, not_lt]
  simp only [hmissing]
  rw [firstRowOf_eq_firstAmong hpos hn]
  refine ⟨⟨?_, ?_⟩, ?_, firstAmong_of_hasColumn _, ?_⟩
  · rintro ⟨e, he⟩
    by_contra hall
    have hcs : ∀ c ∈ cs, ∀ l ∈ c, HasColumn n l := by simpa using hall
    rcases firstAmong_of_hasColumn (Nat.pow 2 n) hcs with ⟨r, -, hok, -⟩ | ⟨hok, -⟩ <;>
      exact nomatch hok.symm.trans he
  · rintro ⟨c, hc, l, hl, hnot⟩
    have hbad : ∃ c ∈ cs, ¬∀ l ∈ c, HasColumn n l := ⟨c, hc, fun hall => hnot (hall l hl)⟩
    obtain ⟨before, c', after, rfl, hbefore, hc'⟩ := exists_first_not hbad
    exact ⟨_, firstAmong_of_not_hasColumn _ hbefore (by simpa using hc')⟩
  · rintro before c after rfl hbefore hc
    exact firstAmong_of_not_hasColumn _ hbefore hc
  · exact fun r => ⟨length_row n r, fun v hv => getElem?_row_eq_bit hv r⟩

/-- Over two variables: literals counted from the end, and literals without a column behind a clause
that rules out every row. -/
theorem firstRowOf_eq_first_over_two :
    (∃ r < 2 ^ 2, firstRowOf 2 [[⟨-1⟩], [⟨0⟩, ⟨-2⟩]] = .ok (some (row 2 r)) ∧
      ∀ r' < r, satisfies? (row 2 r') [[⟨-1⟩], [⟨0⟩, ⟨-2⟩]] = some false) ∧
    firstRowOf 2 [[], [⟨4⟩], [⟨0x8000000000000000⟩]] = .error .indexOutOfRange ∧
    firstRowOf 2 [[], [⟨-5⟩, ⟨0x8000000000000000⟩], [⟨4⟩]] = .error .tooWide := by
  refine ⟨?_, ?_, ?_⟩
  · have hspec := firstRowOf_eq_first (n := 2) (by decide) (by decide) [[⟨-1⟩], [⟨0⟩, ⟨-2⟩]]
    rcases hspec.2.2.1 (by decide) with ⟨r, hr, hok, -, hleast⟩ | ⟨-, hnone⟩
    · exact ⟨r, hr, hok, hleast⟩
    · exact absurd (hnone 1 (by decide)) (by decide)
  · exact (firstRowOf_eq_first (by decide) (by decide) _).2.1 [[]] [⟨4⟩]
      [[⟨0x8000000000000000⟩]] rfl (by decide) (by decide)
  · exact (firstRowOf_eq_first (by decide) (by decide) _).2.1 [[]]
      [⟨-5⟩, ⟨0x8000000000000000⟩] [[⟨4⟩]] rfl (by decide) (by decide)

end CnfSolver.TruthTable
