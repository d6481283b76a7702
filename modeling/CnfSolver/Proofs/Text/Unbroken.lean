import CnfSolver.Text.Characters
import CnfSolver.Text.Quoting
import Mathlib.Tactic.SplitIfs

/-!
# Texts on one line

A text stays on one line if its only blanks are spaces. Whatever characters a string holds, written
in JSON it has only printable ASCII characters, so it stays on one line.
-/

namespace CnfSolver.Text

/-- The only blanks are spaces, so no line ends within the text. -/
def IsUnbroken (cs : List Char) : Prop := ∀ c ∈ cs, isBlank c = true → c = ' '

instance (cs : List Char) : Decidable (IsUnbroken cs) := List.decidableBAll _ cs

theorem IsUnbroken.append {cs ds : List Char} (hcs : IsUnbroken cs) (hds : IsUnbroken ds) :
    IsUnbroken (cs ++ ds) :=
  List.forall_mem_append.2 ⟨hcs, hds⟩

theorem forall_mem_intercalate {P : Char → Prop} {separator : List Char}
    (hseparator : ∀ c ∈ separator, P c) {parts : List (List Char)}
    (hparts : ∀ part ∈ parts, ∀ c ∈ part, P c) : ∀ c ∈ separator.intercalate parts, P c := by
  induction parts with
  | nil =>
      rw [List.intercalate_nil]
      exact List.forall_mem_nil P
  | cons first parts ih =>
      obtain ⟨hfirst, hrest⟩ := List.forall_mem_cons.1 hparts
      cases parts with
      | nil => rwa [List.intercalate_singleton]
      | cons second parts =>
          rw [List.intercalate_cons_cons, List.forall_mem_append, List.forall_mem_append]
          exact ⟨⟨hfirst, hseparator⟩, ih hrest⟩

theorem IsUnbroken.intercalate {separator : List Char} (hseparator : IsUnbroken separator)
    {parts : List (List Char)} (hparts : ∀ part ∈ parts, IsUnbroken part) :
    IsUnbroken (separator.intercalate parts) :=
  forall_mem_intercalate hseparator hparts

/-! ## JSON strings -/

def IsAscii (c : Char) : Prop := 0x20 ≤ c.toNat ∧ c.toNat ≤ 0x7E

instance (c : Char) : Decidable (IsAscii c) := inferInstanceAs (Decidable (_ ∧ _))

theorem isUnbroken_of_isAscii {cs : List Char} (h : ∀ c ∈ cs, IsAscii c) : IsUnbroken cs := by
  intro c hc hblank
  obtain ⟨hle, hge⟩ := h c hc
  have hspace : c.toNat = 0x20 := by
    simp only [isBlank, Bool.or_eq_true, Bool.and_eq_true, decide_eq_true_iff, beq_iff_eq] at hblank
    omega
  rw [← Char.ofNat_toNat c, hspace]

theorem isAscii_digitChar : ∀ d, d < 16 → IsAscii (Nat.digitChar d) := by
  decide

theorem isAscii_of_mem_toDigits {base : Nat} (hlower : 1 < base) (hupper : base ≤ 16) (n : Nat) :
    ∀ c ∈ Nat.toDigits base n, IsAscii c := by
  induction n using Nat.strongRecOn with
  | ind n ih =>
      by_cases hn : n < base
      · rw [Nat.toDigits_of_lt_base hn, List.forall_mem_singleton]
        exact isAscii_digitChar n (Nat.lt_of_lt_of_le hn hupper)
      · rw [Nat.toDigits_of_base_le hlower (Nat.le_of_not_lt hn), List.forall_mem_append,
          List.forall_mem_singleton]
        have hdiv : n / base < n := Nat.div_lt_self (by omega) hlower
        have hmod : n % base < base := Nat.mod_lt n (by omega)
        exact ⟨ih (n / base) hdiv, isAscii_digitChar _ (Nat.lt_of_lt_of_le hmod hupper)⟩

theorem isAscii_of_mem_hex (width n : Nat) : ∀ c ∈ hex width n, IsAscii c := by
  unfold hex
  rw [List.forall_mem_append]
  refine ⟨fun c hc => ?_, isAscii_of_mem_toDigits (by decide) (by decide) n⟩
  rw [List.eq_of_mem_replicate hc]
  decide

theorem isAscii_of_mem_escapeJson (c : Char) : ∀ d ∈ escapeJson c, IsAscii d := by
  have hslash : ∀ d, IsAscii d → ∀ e ∈ ['\\', d], IsAscii e := by
    intro d hd
    exact List.forall_mem_cons.2 ⟨by decide, List.forall_mem_singleton.2 hd⟩
  unfold escapeJson
  split
  · next h =>
    rw [Bool.or_eq_true, beq_iff_eq, beq_iff_eq] at h
    rcases h with rfl | rfl
    · exact hslash _ (by decide)
    · exact hslash _ (by decide)
  · split_ifs with hn hr ht hf hb hplain
    · exact hslash 'n' (by decide)
    · exact hslash 'r' (by decide)
    · exact hslash 't' (by decide)
    · exact hslash 'f' (by decide)
    · exact hslash 'b' (by decide)
    · rw [List.forall_mem_singleton]
      rw [Bool.and_eq_true, decide_eq_true_iff, decide_eq_true_iff] at hplain
      exact hplain
    · intro d hd
      obtain ⟨unit, -, hunit⟩ := List.mem_flatMap.1 hd
      rcases List.mem_cons.1 hunit with rfl | hunit
      · decide
      · rcases List.mem_cons.1 hunit with rfl | hunit
        · decide
        · exact isAscii_of_mem_hex 4 unit d hunit

theorem isAscii_of_mem_jsonString (s : String) : ∀ c ∈ (jsonString s).toList, IsAscii c := by
  rw [jsonString, String.toList_ofList, List.cons_append, List.forall_mem_cons,
    List.forall_mem_append, List.forall_mem_singleton]
  refine ⟨by decide, fun c hc => ?_, by decide⟩
  obtain ⟨d, -, hd⟩ := List.mem_flatMap.1 hc
  exact isAscii_of_mem_escapeJson d c hd

end CnfSolver.Text
