import CnfSolver.Proofs.NameTable.Tokens
import CnfSolver.Proofs.Text.Words
import Mathlib.Algebra.Group.Nat.Defs
import Mathlib.Data.List.Forall2

/-!
# Written literals

A signed name with a proper name is written as one word, and the word is read as that signed name.
So a line of such words, however they are spaced, has just these signed names. Integers are encoded
as the lines on which they are written, unless they are too long to be written at all.
-/

namespace CnfSolver

namespace SignedName

theorem toList_render (s : SignedName) :
    s.render.toList = if s.negated then '~' :: s.name.toList else s.name.toList := by
  unfold render
  cases s.negated with
  | true =>
      change ("~" ++ s.name).toList = '~' :: s.name.toList
      rw [String.toList_append]
      rfl
  | false => rfl

theorem IsProper.isName {name : String} (h : IsProper name) : isName name.toList = true := by
  refine isName_iff.2 ⟨?_, fun htilde => h.ne_tilde _ htilde rfl⟩
  intro hnil
  exact h.ne_empty (String.toList_eq_nil_iff.1 hnil)

theorem IsProper.isWord_render {s : SignedName} (h : IsProper s.name) :
    Text.IsWord s.render.toList := by
  have hname : Text.IsWord s.name.toList := ⟨(isName_iff.1 h.isName).1, h.not_blank⟩
  rw [toList_render]
  cases s.negated with
  | true => exact ⟨List.cons_ne_nil _ _, List.forall_mem_cons.2 ⟨by decide, hname.not_blank⟩⟩
  | false => exact hname

theorem IsProper.ofToken_render {s : SignedName} (h : IsProper s.name) (line : String) :
    ofToken line s.render.toList = .ok s := by
  obtain ⟨name, negated⟩ := s
  have hname := h.isName
  rw [toList_render]
  unfold ofToken
  cases negated with
  | true =>
      rw [if_pos rfl, ofToken?, if_pos hname, String.ofList_toList]
  | false =>
      have hword : ofToken? name.toList = some ⟨name, false⟩ := by
        unfold ofToken?
        split
        · next cs heq =>
          exact absurd rfl (h.ne_tilde '~' (heq ▸ List.mem_cons_self))
        · rw [if_pos hname, String.ofList_toList]
      rw [if_neg Bool.false_ne_true, hword]

/-- The signed name that an integer stands for, however many digits that takes. -/
def numbered (v : Int) : SignedName := ⟨v.natAbs.repr, v < 0⟩

theorem ofInteger_eq_ok {v : Int} (h : v.natAbs < 10 ^ Numeral.limit) :
    ofInteger v = .ok (numbered v) := by
  have hlength : v.natAbs.repr.length ≤ Numeral.limit :=
    (Nat.length_repr_le_iff (by decide)).2 h
  rw [ofInteger, Numeral.write?]
  simp only [hlength, if_true]
  rfl

theorem eq_numbered_of_ofInteger {v : Int} {s : SignedName} (h : ofInteger v = .ok s) :
    s = numbered v := by
  unfold ofInteger Numeral.write? at h
  by_cases hlength : v.natAbs.repr.length ≤ Numeral.limit
  · simp only [hlength, if_true] at h
    exact (Except.ok.inj h).symm
  · simp only [hlength, if_false] at h
    exact nomatch h

end SignedName

namespace NameTable

open SignedName (IsProper numbered)

theorem lineNames_of_spaced {names : List SignedName} {line : String}
    (hproper : ∀ s ∈ names, IsProper s.name)
    (hline : Text.Spaced (names.map fun s => s.render.toList) line.toList) :
    lineNames line = names.map .ok := by
  rw [lineNames, hline.words_eq, List.map_map]
  apply List.map_congr_left
  intro s hs
  exact (hproper s hs).ofToken_render line

theorem lineNames_intercalate {names : List SignedName}
    (hproper : ∀ s ∈ names, IsProper s.name) :
    lineNames (" ".intercalate (names.map SignedName.render)) = names.map .ok := by
  apply lineNames_of_spaced hproper
  rw [String.toList_intercalate, List.map_map]
  apply Text.spaced_intercalate
  intro token htoken
  obtain ⟨s, hs, rfl⟩ := List.mem_map.1 htoken
  exact (hproper s hs).isWord_render

/-! ## Integers -/

/-- The line has the integers of the clause as words, a tilde in front of the negative ones. -/
def Writes (clause : List Int) (line : String) : Prop :=
  Text.Spaced (clause.map fun v => (numbered v).render.toList) line.toList

instance : DecidableRel Writes := fun _ _ => inferInstanceAs (Decidable (Text.Spaced _ _))

theorem lineNames_of_writes {clause : List Int} {line : String} (hline : Writes clause line)
    (hbound : ∀ v ∈ clause, v.natAbs < 10 ^ Numeral.limit) :
    lineNames line = clause.map SignedName.ofInteger := by
  have hproper : ∀ s ∈ clause.map numbered, IsProper s.name := by
    intro s hs
    obtain ⟨v, -, rfl⟩ := List.mem_map.1 hs
    exact SignedName.isProper_repr v.natAbs
  have hwords : Text.Spaced ((clause.map numbered).map fun s => s.render.toList) line.toList := by
    rw [List.map_map]
    exact hline
  rw [lineNames_of_spaced hproper hwords, List.map_map]
  apply List.map_congr_left
  intro v hv
  exact (SignedName.ofInteger_eq_ok (hbound v hv)).symm

theorem map_lineNames_of_writes {clauses : List (List Int)} {lines : List String}
    (hlines : List.Forall₂ Writes clauses lines)
    (hbound : ∀ clause ∈ clauses, ∀ v ∈ clause, v.natAbs < 10 ^ Numeral.limit) :
    lines.map lineNames = clauses.map fun clause => clause.map SignedName.ofInteger := by
  induction hlines with
  | nil => rfl
  | cons hline _ ih =>
      obtain ⟨hfirst, hrest⟩ := List.forall_mem_cons.1 hbound
      rw [List.map_cons, List.map_cons, lineNames_of_writes hline hfirst, ih hrest]

/-- Clauses of integers and the lines on which they are written are encoded alike. -/
theorem encodeIntegers_eq_readLines (t : NameTable) {clauses : List (List Int)}
    {lines : List String} (hlines : List.Forall₂ Writes clauses lines)
    (hbound : ∀ clause ∈ clauses, ∀ v ∈ clause, v.natAbs < 10 ^ Numeral.limit) :
    t.encodeIntegers clauses = t.readLines lines := by
  rw [encodeIntegers, readLines, map_lineNames_of_writes hlines hbound]

end NameTable

end CnfSolver
