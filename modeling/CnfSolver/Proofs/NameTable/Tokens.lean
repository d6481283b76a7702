import CnfSolver.NameTable
import CnfSolver.Proofs.Numeral
import CnfSolver.Proofs.Text.Words

/-!
# Tokens and names

Which tokens of a line are literals, and what the names are like that tokens and signed integers
stand for.
-/

namespace CnfSolver.SignedName

/-- A name that can stand in a line of text: not empty, without blanks and tildes. -/
structure IsProper (name : String) : Prop where
  ne_empty : name ≠ ""
  ne_tilde : ∀ c ∈ name.toList, c ≠ '~'
  not_blank : ∀ c ∈ name.toList, Text.isBlank c = false

theorem isProper_iff {name : String} :
    IsProper name ↔
      name ≠ "" ∧ (name.toList.all fun c => c != '~' && !Text.isBlank c) = true := by
  simp only [List.all_eq_true, Bool.and_eq_true, bne_iff_ne, Bool.not_eq_true']
  constructor
  · exact fun h => ⟨h.ne_empty, fun c hc => ⟨h.ne_tilde c hc, h.not_blank c hc⟩⟩
  · exact fun ⟨hne, hall⟩ => ⟨hne, fun c hc => (hall c hc).1, fun c hc => (hall c hc).2⟩

instance (name : String) : Decidable (IsProper name) := decidable_of_iff _ isProper_iff.symm

/-- A token that is no literal: a tilde alone, or with a tilde behind its first character. -/
def IsBadToken (token : List Char) : Prop := token = ['~'] ∨ '~' ∈ token.tail

instance : DecidablePred IsBadToken := fun _ => inferInstanceAs (Decidable (_ ∨ _))

theorem isName_iff {cs : List Char} : isName cs = true ↔ cs ≠ [] ∧ '~' ∉ cs := by
  simp [isName]

theorem isProper_ofList {cs : List Char} (hname : isName cs = true)
    (hblank : ∀ c ∈ cs, Text.isBlank c = false) : IsProper (String.ofList cs) where
  ne_empty h := (isName_iff.1 hname).1 (String.ofList_eq_empty_iff.1 h)
  ne_tilde c hc := by
    rintro rfl
    rw [String.toList_ofList] at hc
    exact (isName_iff.1 hname).2 hc
  not_blank c hc := by
    rw [String.toList_ofList] at hc
    exact hblank c hc

theorem ofToken?_cases {token : List Char} (hne : token ≠ []) :
    (IsBadToken token ∧ ofToken? token = none) ∨
    (¬IsBadToken token ∧ ∃ cs negated, isName cs = true ∧ (∀ c ∈ cs, c ∈ token) ∧
      ofToken? token = some ⟨String.ofList cs, negated⟩) := by
  obtain ⟨c, cs, rfl⟩ := List.exists_cons_of_ne_nil hne
  by_cases htilde : c = '~'
  · subst htilde
    have hbad : IsBadToken ('~' :: cs) ↔ ¬isName cs = true := by
      rw [isName_iff, IsBadToken, Decidable.not_and_iff_or_not]
      simp
    by_cases hname : isName cs = true
    · refine .inr ⟨fun h => hbad.1 h hname, cs, true, hname, ?_, if_pos hname⟩
      exact fun _ => List.mem_cons_of_mem _
    · exact .inl ⟨hbad.2 hname, if_neg hname⟩
  · have hbad : IsBadToken (c :: cs) ↔ ¬isName (c :: cs) = true := by
      rw [isName_iff, IsBadToken]
      simp [htilde, Ne.symm htilde]
    have heq : ofToken? (c :: cs) =
        if isName (c :: cs) then some ⟨String.ofList (c :: cs), false⟩ else none := by
      unfold ofToken?
      split
      · next heq => exact absurd (List.cons.inj heq).1 htilde
      · rfl
    by_cases hname : isName (c :: cs) = true
    · exact .inr ⟨fun h => hbad.1 h hname, c :: cs, false, hname, fun _ => id,
        by rw [heq, if_pos hname]⟩
    · exact .inl ⟨hbad.2 hname, by rw [heq, if_neg hname]⟩

theorem ofToken_of_isBadToken (line : String) {token : List Char} (hne : token ≠ [])
    (hbad : IsBadToken token) :
    ofToken line token = .error (.badLiteral (String.ofList token) line) := by
  rcases ofToken?_cases hne with ⟨-, hnone⟩ | ⟨hnot, -⟩
  · rw [ofToken, hnone]
  · exact absurd hbad hnot

theorem exists_ofToken_eq_ok (line : String) {token : List Char} (hne : token ≠ [])
    (hblank : ∀ c ∈ token, Text.isBlank c = false) (hbad : ¬IsBadToken token) :
    ∃ s, ofToken line token = .ok s ∧ IsProper s.name := by
  rcases ofToken?_cases hne with ⟨hbad', -⟩ | ⟨-, cs, negated, hname, hmem, hsome⟩
  · exact absurd hbad' hbad
  · refine ⟨⟨String.ofList cs, negated⟩, by rw [ofToken, hsome], ?_⟩
    exact isProper_ofList hname fun c hc => hblank c (hmem c hc)

theorem isProper_of_mem_lineNames {line : String} {s : SignedName}
    (h : .ok s ∈ NameTable.lineNames line) : IsProper s.name := by
  obtain ⟨token, htoken, heq⟩ := List.mem_map.1 h
  have hne := Text.ne_nil_of_mem_words htoken
  have hblank := Text.not_isBlank_of_mem_words htoken
  by_cases hbad : IsBadToken token
  · rw [ofToken_of_isBadToken line hne hbad] at heq
    exact nomatch heq
  · obtain ⟨s', hs', hproper⟩ := exists_ofToken_eq_ok line hne hblank hbad
    rw [hs'] at heq
    obtain rfl := Except.ok.inj heq
    exact hproper

theorem not_isBlank_of_isDigit {c : Char} (h : c.isDigit = true) : Text.isBlank c = false := by
  obtain ⟨hle, hge⟩ : 48 ≤ c.toNat ∧ c.toNat ≤ 57 := Char.isDigit_iff_toNat.1 h
  rw [← Bool.not_eq_true]
  simp only [Text.isBlank, Bool.or_eq_true, Bool.and_eq_true, decide_eq_true_iff, beq_iff_eq]
  omega

theorem isProper_repr (n : Nat) : IsProper n.repr := by
  refine ⟨Nat.repr_ne_empty, ?_, ?_⟩
  · rintro c hc rfl
    exact absurd (Numeral.isDigit_of_mem_repr hc) (by decide)
  · intro c hc
    exact not_isBlank_of_isDigit (Numeral.isDigit_of_mem_repr hc)

theorem isProper_of_ofInteger {v : Int} {s : SignedName} (h : ofInteger v = .ok s) :
    IsProper s.name := by
  unfold ofInteger Numeral.write? at h
  split at h
  · next name hname =>
    obtain rfl := Except.ok.inj h
    simp only at hname
    split at hname
    · obtain rfl := Option.some.inj hname
      exact isProper_repr v.natAbs
    · cases hname
  · cases h

theorem eq_numeralTooLong_of_ofInteger {v : Int} {e : Error} (h : ofInteger v = .error e) :
    e = .numeralTooLong := by
  unfold ofInteger at h
  split at h
  · exact nomatch h
  · exact (Except.error.inj h).symm

end CnfSolver.SignedName
