import CnfSolver.Numeral
import Mathlib.Data.Nat.Digits.Defs

/-!
# Reading numerals

Digits of the ASCII script, with a sign or without and with zeros in front or without, are read as
the number that they spell, as long as there are not too many of them.
-/

namespace CnfSolver.Numeral

structure IsDigits (n : Nat) (digits : List Char) : Prop where
  ne_nil : digits ≠ []
  isDigit : ∀ c ∈ digits, c.isDigit = true
  length_le : digits.length ≤ limit
  value : Nat.ofDigitChars 10 digits 0 = n

instance (n : Nat) (digits : List Char) : Decidable (IsDigits n digits) :=
  decidable_of_iff
    (digits ≠ [] ∧ digits.all Char.isDigit = true ∧ digits.length ≤ limit ∧
      Nat.ofDigitChars 10 digits 0 = n)
    ⟨fun ⟨hne, hdigit, hle, hvalue⟩ => ⟨hne, List.all_eq_true.1 hdigit, hle, hvalue⟩,
      fun h => ⟨h.ne_nil, List.all_eq_true.2 h.isDigit, h.length_le, h.value⟩⟩

/-- The token is `v` in digits of the ASCII script. There may be a sign, which zero may have too. -/
inductive Spells (v : Int) : List Char → Prop
  | unsigned {digits : List Char} (hv : 0 ≤ v) (h : IsDigits v.natAbs digits) : Spells v digits
  | plus {digits : List Char} (hv : 0 ≤ v) (h : IsDigits v.natAbs digits) :
      Spells v ('+' :: digits)
  | minus {digits : List Char} (hv : v ≤ 0) (h : IsDigits v.natAbs digits) :
      Spells v ('-' :: digits)

theorem digit?_of_isDigit {c : Char} (h : c.isDigit = true) :
    Text.digit? c = some (c.toNat - 48) := by
  obtain ⟨hle, hge⟩ : 48 ≤ c.toNat ∧ c.toNat ≤ 57 := Char.isDigit_iff_toNat.1 h
  unfold Text.digit? Text.digitZeros
  rw [List.find?_cons_of_pos]
  · rfl
  · simp only [Bool.and_eq_true, decide_eq_true_iff]
    omega

theorem digits?_of_isDigit {digits : List Char} (hne : digits ≠ [])
    (h : ∀ c ∈ digits, c.isDigit = true) :
    digits? digits = some (digits.map fun c => c.toNat - 48) := by
  induction digits with
  | nil => exact absurd rfl hne
  | cons c cs ih =>
      obtain ⟨hc, hcs⟩ := List.forall_mem_cons.1 h
      cases cs with
      | nil => rw [digits?, digit?_of_isDigit hc]; rfl
      | cons d ds =>
          have hd : d ≠ '_' := by
            rintro rfl
            exact absurd (hcs '_' List.mem_cons_self) (by decide)
          have hrest := ih (List.cons_ne_nil _ _) hcs
          rw [digits?, digit?_of_isDigit hc, hrest]
          · rfl
          · exact List.cons_ne_nil _ _
          · exact fun cs heq => hd (List.cons.inj heq).1

theorem ofDigits_eq_ofDigitChars (digits : List Char) :
    ofDigits (digits.map fun c => c.toNat - 48) = Nat.ofDigitChars 10 digits 0 := by
  rw [ofDigits, List.foldl_map, Nat.ofDigitChars_eq_foldl]
  rfl

theorem IsDigits.magnitude?_eq {n : Nat} {digits : List Char} (h : IsDigits n digits) :
    magnitude? digits = some n := by
  rw [magnitude?, digits?_of_isDigit h.ne_nil h.isDigit, Option.bind_some,
    if_pos (by rw [List.length_map]; exact h.length_le), ofDigits_eq_ofDigitChars, h.value]

theorem Spells.read?_eq {v : Int} {token : List Char} (h : Spells v token) :
    read? token = some v := by
  cases h with
  | unsigned hv h =>
      unfold read?
      split
      · exact absurd (h.isDigit '+' List.mem_cons_self) (by decide)
      · exact absurd (h.isDigit '-' List.mem_cons_self) (by decide)
      · rw [h.magnitude?_eq]
        change some (v.natAbs : Int) = some v
        rw [Int.natAbs_of_nonneg hv]
  | plus hv h =>
      rw [read?, h.magnitude?_eq]
      change some (v.natAbs : Int) = some v
      rw [Int.natAbs_of_nonneg hv]
  | minus hv h =>
      rw [read?, h.magnitude?_eq]
      change some (-(v.natAbs : Int)) = some v
      rw [Int.ofNat_natAbs_of_nonpos hv, Int.neg_neg]

/-! ## The size of numerals -/

theorem digit?_lt {c : Char} {d : Nat} (h : Text.digit? c = some d) : d < 10 := by
  unfold Text.digit? at h
  obtain ⟨start, hstart, rfl⟩ := Option.map_eq_some_iff.1 h
  have hrange := List.find?_some hstart
  simp only [Bool.and_eq_true, decide_eq_true_iff] at hrange
  omega

theorem digits?_lt {cs : List Char} {ds : List Nat} (h : digits? cs = some ds) :
    ∀ d ∈ ds, d < 10 := by
  fun_induction digits? cs generalizing ds with
  | case1 => exact nomatch h
  | case2 c =>
      obtain ⟨d, hd, rfl⟩ := Option.map_eq_some_iff.1 h
      exact List.forall_mem_singleton.2 (digit?_lt hd)
  | case3 c cs ih =>
      obtain ⟨d, hd, h⟩ := Option.bind_eq_some_iff.1 h
      obtain ⟨ds, hds, rfl⟩ := Option.map_eq_some_iff.1 h
      exact List.forall_mem_cons.2 ⟨digit?_lt hd, ih hds⟩
  | case4 c cs _ _ ih =>
      obtain ⟨d, hd, h⟩ := Option.bind_eq_some_iff.1 h
      obtain ⟨ds, hds, rfl⟩ := Option.map_eq_some_iff.1 h
      exact List.forall_mem_cons.2 ⟨digit?_lt hd, ih hds⟩

theorem ofDigits_lt {ds : List Nat} (h : ∀ d ∈ ds, d < 10) : ofDigits ds < 10 ^ ds.length := by
  have hstep : ∀ n k, n < 10 ^ k → ds.foldl (fun n d => 10 * n + d) n < 10 ^ (k + ds.length) := by
    induction ds with
    | nil => exact fun n k hn => hn
    | cons d ds ih =>
        obtain ⟨hd, hds⟩ := List.forall_mem_cons.1 h
        intro n k hn
        have hnext : 10 * n + d < 10 ^ (k + 1) := by omega
        have hall := ih hds (10 * n + d) (k + 1) hnext
        rw [List.length_cons, Nat.add_comm ds.length, ← Nat.add_assoc]
        exact hall
  have hall := hstep 0 0 (by decide)
  rw [Nat.zero_add] at hall
  exact hall

theorem magnitude?_lt {cs : List Char} {n : Nat} (h : magnitude? cs = some n) :
    n < 10 ^ limit := by
  obtain ⟨ds, hds, h⟩ := Option.bind_eq_some_iff.1 h
  obtain ⟨hle, heq⟩ := Option.ite_none_right_eq_some.1 h
  obtain rfl := Option.some.inj heq
  exact Nat.lt_of_lt_of_le (ofDigits_lt (digits?_lt hds)) (Nat.pow_le_pow_right (by decide) hle)

theorem natAbs_lt_of_read? {cs : List Char} {v : Int} (h : read? cs = some v) :
    v.natAbs < 10 ^ limit := by
  have hcast : ∀ {cs : List Char} {v : Int},
      (magnitude? cs).bind (fun n => some (n : Int)) = some v → v.natAbs < 10 ^ limit := by
    intro cs v h
    obtain ⟨n, hn, heq⟩ := Option.bind_eq_some_iff.1 h
    obtain rfl := Option.some.inj heq
    exact magnitude?_lt hn
  unfold read? at h
  split at h
  · obtain ⟨v, hv, rfl⟩ := Option.map_eq_some_iff.1 h
    exact hcast hv
  · obtain ⟨v, hv, rfl⟩ := Option.map_eq_some_iff.1 h
    rw [Int.natAbs_neg]
    exact hcast hv
  · obtain ⟨v, hv, rfl⟩ := Option.map_eq_some_iff.1 h
    exact hcast hv

/-! ## Numbers written and read back -/

theorem isDigit_of_mem_repr {n : Nat} {c : Char} (h : c ∈ n.repr.toList) : c.isDigit = true := by
  rw [Nat.toList_repr] at h
  exact Nat.isDigit_of_mem_toDigits (by decide) (by decide) h

theorem isDigits_repr {n : Nat} (h : n < 10 ^ limit) : IsDigits n n.repr.toList where
  ne_nil := by
    rw [Nat.toList_repr]
    exact Nat.toDigits_ne_nil
  isDigit _ hc := isDigit_of_mem_repr hc
  length_le := by
    rw [String.length_toList]
    exact (Nat.length_repr_le_iff (by decide)).2 h
  value := by
    rw [Nat.toList_repr]
    exact Nat.ofDigitChars_toDigits (by decide) (by decide)

theorem read?_repr {n : Nat} (h : n < 10 ^ limit) : read? n.repr.toList = some (n : Int) := by
  apply Spells.read?_eq
  apply Spells.unsigned (Int.natCast_nonneg n)
  rw [Int.natAbs_natCast]
  exact isDigits_repr h

end CnfSolver.Numeral
