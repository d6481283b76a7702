import CnfSolver.Proofs.Numeral

/-!
# The grammar of numerals

Which tokens are numerals, and of which number, said without the reader: digits of any script and
single underscores between them, behind at most one sign. The reader accepts just these.
-/

namespace CnfSolver.Numeral

/-- The text is digits of any script that have the values `ds`. There may be an underscore between
two of them. -/
inductive Digits : List Char → List Nat → Prop
  | last {c : Char} {d : Nat} (hc : Text.digit? c = some d) : Digits [c] [d]
  | next {c : Char} {d : Nat} {cs : List Char} {ds : List Nat} (hc : Text.digit? c = some d)
      (hrest : Digits cs ds) : Digits (c :: cs) (d :: ds)
  | underscore {c : Char} {d : Nat} {cs : List Char} {ds : List Nat}
      (hc : Text.digit? c = some d) (hrest : Digits cs ds) : Digits (c :: '_' :: cs) (d :: ds)

def IsMagnitudeOf (n : Nat) (cs : List Char) : Prop :=
  ∃ ds, Digits cs ds ∧ ds.length ≤ limit ∧ Nat.ofDigits 10 ds.reverse = n

inductive IsNumeralOf : Int → List Char → Prop
  | unsigned {n : Nat} {cs : List Char} (h : IsMagnitudeOf n cs) : IsNumeralOf n cs
  | plus {n : Nat} {cs : List Char} (h : IsMagnitudeOf n cs) : IsNumeralOf n ('+' :: cs)
  | minus {n : Nat} {cs : List Char} (h : IsMagnitudeOf n cs) : IsNumeralOf (-n) ('-' :: cs)

theorem Digits.exists_cons {cs : List Char} {ds : List Nat} (h : Digits cs ds) :
    ∃ c rest, cs = c :: rest ∧ Text.digit? c ≠ none := by
  cases h with
  | @last c d hc => exact ⟨c, [], rfl, by simp [hc]⟩
  | @next c d cs ds hc _ => exact ⟨c, cs, rfl, by simp [hc]⟩
  | @underscore c d cs ds hc _ => exact ⟨c, '_' :: cs, rfl, by simp [hc]⟩

theorem Digits.head?_ne {cs : List Char} {ds : List Nat} (h : Digits cs ds) {c : Char}
    (hc : Text.digit? c = none) : cs.head? ≠ some c := by
  obtain ⟨c', rest, rfl, hdigit⟩ := h.exists_cons
  intro heq
  obtain rfl : c' = c := Option.some.inj heq
  exact hdigit hc

theorem digits?_cons {c : Char} {cs : List Char} (hne : cs ≠ []) (h : cs.head? ≠ some '_') :
    digits? (c :: cs) = (Text.digit? c).bind fun d => (digits? cs).map (d :: ·) := by
  rw [digits?]
  · exact hne
  · rintro rest rfl
    exact h rfl

theorem digits?_eq_some_iff {cs : List Char} {ds : List Nat} :
    digits? cs = some ds ↔ Digits cs ds := by
  constructor
  · intro h
    fun_induction digits? cs generalizing ds with
    | case1 => cases h
    | case2 c =>
        obtain ⟨d, hd, rfl⟩ := Option.map_eq_some_iff.1 h
        exact .last hd
    | case3 c cs ih =>
        obtain ⟨d, hd, h⟩ := Option.bind_eq_some_iff.1 h
        obtain ⟨ds, hds, rfl⟩ := Option.map_eq_some_iff.1 h
        exact .underscore hd (ih hds)
    | case4 c cs _ _ ih =>
        obtain ⟨d, hd, h⟩ := Option.bind_eq_some_iff.1 h
        obtain ⟨ds, hds, rfl⟩ := Option.map_eq_some_iff.1 h
        exact .next hd (ih hds)
  · intro h
    induction h with
    | last hc => rw [digits?, hc, Option.map_some]
    | @next c d cs ds hc hrest ih =>
        obtain ⟨c', rest, hcons, -⟩ := hrest.exists_cons
        rw [digits?_cons (by simp [hcons]) (hrest.head?_ne (by decide)), hc, ih]
        rfl
    | underscore hc _ ih =>
        rw [digits?, hc, ih]
        rfl

theorem ofDigits_eq (ds : List Nat) : ofDigits ds = Nat.ofDigits 10 ds.reverse := by
  rw [Nat.ofDigits_eq_foldr, List.foldr_reverse, ofDigits]
  simp only [Nat.cast_id, Nat.add_comm]

theorem magnitude?_eq_some_iff {cs : List Char} {n : Nat} :
    magnitude? cs = some n ↔ IsMagnitudeOf n cs := by
  simp only [magnitude?, IsMagnitudeOf, Option.bind_eq_some_iff, digits?_eq_some_iff,
    Option.ite_none_right_eq_some, Option.some.injEq, ofDigits_eq]

theorem read?_of_unsigned {cs : List Char} (hplus : cs.head? ≠ some '+')
    (hminus : cs.head? ≠ some '-') : read? cs = (magnitude? cs).map fun (n : Nat) => (n : Int) := by
  unfold read?
  split
  · exact absurd rfl hplus
  · exact absurd rfl hminus
  · cases magnitude? cs <;> rfl

theorem read?_plus (cs : List Char) :
    read? ('+' :: cs) = (magnitude? cs).map fun (n : Nat) => (n : Int) := by
  rw [read?]
  cases magnitude? cs <;> rfl

theorem read?_minus (cs : List Char) :
    read? ('-' :: cs) = (magnitude? cs).map fun (n : Nat) => -(n : Int) := by
  rw [read?]
  cases magnitude? cs <;> rfl

theorem read?_eq_some_iff {token : List Char} {v : Int} :
    read? token = some v ↔ IsNumeralOf v token := by
  constructor
  · intro h
    by_cases hplus : token.head? = some '+'
    · obtain ⟨cs, rfl⟩ := List.head?_eq_some_iff.1 hplus
      rw [read?_plus] at h
      obtain ⟨n, hn, rfl⟩ := Option.map_eq_some_iff.1 h
      exact .plus (magnitude?_eq_some_iff.1 hn)
    · by_cases hminus : token.head? = some '-'
      · obtain ⟨cs, rfl⟩ := List.head?_eq_some_iff.1 hminus
        rw [read?_minus] at h
        obtain ⟨n, hn, rfl⟩ := Option.map_eq_some_iff.1 h
        exact .minus (magnitude?_eq_some_iff.1 hn)
      · rw [read?_of_unsigned hplus hminus] at h
        obtain ⟨n, hn, rfl⟩ := Option.map_eq_some_iff.1 h
        exact .unsigned (magnitude?_eq_some_iff.1 hn)
  · intro h
    cases h with
    | @unsigned n _ h =>
        obtain ⟨ds, hds, -⟩ := id h
        rw [read?_of_unsigned (hds.head?_ne (by decide)) (hds.head?_ne (by decide)),
          magnitude?_eq_some_iff.2 h, Option.map_some]
    | plus h => rw [read?_plus, magnitude?_eq_some_iff.2 h, Option.map_some]
    | minus h => rw [read?_minus, magnitude?_eq_some_iff.2 h, Option.map_some]

theorem read?_eq_none_iff {token : List Char} :
    read? token = none ↔ ¬∃ v, IsNumeralOf v token := by
  simp only [Option.eq_none_iff_forall_ne_some, Ne, read?_eq_some_iff, not_exists]

instance (v : Int) (token : List Char) : Decidable (IsNumeralOf v token) :=
  decidable_of_iff _ read?_eq_some_iff

instance (token : List Char) : Decidable (∃ v, IsNumeralOf v token) :=
  decidable_of_iff (read? token ≠ none) (by rw [Ne, read?_eq_none_iff, not_not])

end CnfSolver.Numeral
