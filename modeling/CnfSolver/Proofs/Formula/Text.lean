import CnfSolver.Proofs.Formula
import CnfSolver.Proofs.NameTable.Rendering

/-!
# Clauses written as lines of text

A line denotes a clause if its words are the signed names of the clause. So a line denotes at most
one clause, and a line of literals denotes one.
-/

namespace CnfSolver

namespace SignedName

def IsLiteral (token : List Char) : Prop :=
  ∃ name, name ≠ [] ∧ '~' ∉ name ∧ (token = name ∨ token = '~' :: name)

theorem isBadToken_iff {token : List Char} (hne : token ≠ []) :
    IsBadToken token ↔ ¬IsLiteral token := by
  obtain ⟨c, cs, rfl⟩ := List.exists_cons_of_ne_nil hne
  rw [iff_not_comm]
  constructor
  · rintro ⟨name, hname, htilde, heq | heq⟩
    · rintro (hbad | hbad)
      · exact htilde (heq ▸ hbad ▸ List.mem_cons_self)
      · exact htilde (heq ▸ List.mem_cons_of_mem c hbad)
    · obtain ⟨rfl, rfl⟩ := List.cons.inj heq
      rintro (hbad | hbad)
      · exact hname (List.cons.inj hbad).2
      · exact htilde hbad
  · intro hgood
    have htail : '~' ∉ cs := fun hmem => hgood (.inr hmem)
    by_cases hc : c = '~'
    · subst hc
      refine ⟨cs, ?_, htail, .inr rfl⟩
      rintro rfl
      exact hgood (.inl rfl)
    · refine ⟨c :: cs, List.cons_ne_nil _ _, ?_, .inl rfl⟩
      rw [List.mem_cons, not_or]
      exact ⟨Ne.symm hc, htail⟩

theorem isLiteral_iff {token : List Char} :
    IsLiteral token ↔ token ≠ [] ∧ ¬IsBadToken token := by
  constructor
  · intro h
    have hne : token ≠ [] := by
      obtain ⟨name, hname, -, rfl | rfl⟩ := h
      · exact hname
      · exact List.cons_ne_nil _ _
    exact ⟨hne, fun hbad => (isBadToken_iff hne).1 hbad h⟩
  · rintro ⟨hne, hgood⟩
    rwa [isBadToken_iff hne, not_not] at hgood

instance : DecidablePred IsLiteral := fun _ => decidable_of_iff _ isLiteral_iff.symm

theorem render_of_ofToken {line : String} {token : List Char} {s : SignedName}
    (h : ofToken line token = .ok s) : s.render.toList = token := by
  unfold ofToken ofToken? at h
  rw [toList_render]
  split at h
  · next s' hsome =>
    obtain rfl := Except.ok.inj h
    split at hsome
    · obtain ⟨-, heq⟩ := Option.ite_none_right_eq_some.1 hsome
      rw [← Option.some.inj heq, String.toList_ofList]
      rfl
    · obtain ⟨-, heq⟩ := Option.ite_none_right_eq_some.1 hsome
      rw [← Option.some.inj heq, String.toList_ofList]
      rfl
  · exact nomatch h

theorem eq_map_render_of_map_ofToken {line : String} {tokens : List (List Char)}
    {clause : List SignedName} (h : tokens.map (ofToken line) = clause.map .ok) :
    tokens = clause.map fun s => s.render.toList := by
  induction tokens generalizing clause with
  | nil => rw [List.map_eq_nil_iff.1 h.symm, List.map_nil]
  | cons token tokens ih =>
      obtain ⟨s, rest, rfl, hs, hrest⟩ := List.map_eq_cons_iff.1 h.symm
      rw [List.map_cons, render_of_ofToken hs.symm, ← ih hrest.symm]

theorem exists_map_ofToken (line : String) {tokens : List (List Char)}
    (hwords : ∀ token ∈ tokens, Text.IsWord token) (h : ∀ token ∈ tokens, IsLiteral token) :
    ∃ clause : List SignedName, tokens.map (ofToken line) = clause.map .ok := by
  induction tokens with
  | nil => exact ⟨[], rfl⟩
  | cons token tokens ih =>
      obtain ⟨hword, hrestWords⟩ := List.forall_mem_cons.1 hwords
      obtain ⟨htoken, hrest⟩ := List.forall_mem_cons.1 h
      obtain ⟨s, hs, -⟩ := exists_ofToken_eq_ok line hword.ne_nil hword.not_blank
        (isLiteral_iff.1 htoken).2
      obtain ⟨clause, hclause⟩ := ih hrestWords hrest
      exact ⟨s :: clause, by rw [List.map_cons, hs, hclause, List.map_cons]⟩

end SignedName

open SignedName (IsProper IsLiteral)

/-- The line has the signed names of the clause as its words, in order, and they are proper. -/
structure Denotes (line : String) (clause : List SignedName) : Prop where
  spaced : Text.Spaced (clause.map fun s => s.render.toList) line.toList
  proper : ∀ s ∈ clause, IsProper s.name

namespace Denotes

variable {line : String} {clause : List SignedName}

theorem iff_lineNames : Denotes line clause ↔ NameTable.lineNames line = clause.map .ok := by
  constructor
  · intro h
    exact NameTable.lineNames_of_spaced h.proper h.spaced
  · intro h
    refine ⟨Text.spaced_iff.2 ?_, fun s hs => ?_⟩
    · exact SignedName.eq_map_render_of_map_ofToken h
    · apply SignedName.isProper_of_mem_lineNames
      rw [h]
      exact List.mem_map_of_mem hs

theorem mem_iff (h : Denotes line clause) {s : SignedName} :
    s ∈ clause ↔ IsProper s.name ∧ s.render.toList ∈ Text.words line.toList := by
  have hwords := h.spaced.words_eq
  constructor
  · intro hs
    rw [hwords]
    exact ⟨h.proper s hs, List.mem_map_of_mem hs⟩
  · rintro ⟨hproper, hword⟩
    have hread : NameTable.lineNames line = clause.map .ok := iff_lineNames.1 h
    have hmem : SignedName.ofToken line s.render.toList ∈ NameTable.lineNames line :=
      List.mem_map_of_mem hword
    rw [hproper.ofToken_render, hread] at hmem
    obtain ⟨s', hs', heq⟩ := List.mem_map.1 hmem
    exact Except.ok.inj heq ▸ hs'

theorem eq_nil_iff (h : Denotes line clause) :
    clause = [] ↔ ∀ c ∈ line.toList, Text.isBlank c = true := by
  rw [← Text.words_eq_nil_iff, h.spaced.words_eq, List.map_eq_nil_iff]

instance (line : String) (clause : List SignedName) : Decidable (Denotes line clause) :=
  haveI : DecidableEq (Except Error SignedName) := decidableEqExcept
  decidable_of_iff _ iff_lineNames.symm

end Denotes

theorem exists_denotes {line : String} (h : ∀ token ∈ Text.words line.toList, IsLiteral token) :
    ∃ clause, Denotes line clause := by
  obtain ⟨clause, hclause⟩ :=
    SignedName.exists_map_ofToken line (fun _ => Text.isWord_of_mem_words) h
  exact ⟨clause, Denotes.iff_lineNames.2 hclause⟩

/-- The line is no clause to be added: it is blank, or some token is no literal. -/
def IsFaulty (line : String) : Prop :=
  (∀ c ∈ line.toList, Text.isBlank c = true) ∨
    ∃ token ∈ Text.words line.toList, ¬IsLiteral token

theorem not_isFaulty_iff {line : String} :
    ¬IsFaulty line ↔ (¬∀ c ∈ line.toList, Text.isBlank c = true) ∧
      ∀ token ∈ Text.words line.toList, IsLiteral token := by
  rw [IsFaulty, not_or]
  simp only [not_exists, not_and, not_not]

/-- Lines without a fault denote a formula without empty clauses. -/
theorem exists_forall₂_denotes {lines : List String} (h : ∀ line ∈ lines, ¬IsFaulty line) :
    ∃ f, List.Forall₂ Denotes lines f ∧ [] ∉ f := by
  induction lines with
  | nil => exact ⟨[], .nil, List.not_mem_nil⟩
  | cons line lines ih =>
      obtain ⟨hline, hrest⟩ := List.forall_mem_cons.1 h
      obtain ⟨hblank, hliteral⟩ := not_isFaulty_iff.1 hline
      obtain ⟨clause, hclause⟩ := exists_denotes hliteral
      obtain ⟨f, hf, hne⟩ := ih hrest
      refine ⟨clause :: f, .cons hclause hf, ?_⟩
      rw [List.mem_cons, not_or]
      exact ⟨fun hnil => hblank (hclause.eq_nil_iff.1 hnil.symm), hne⟩

theorem forall₂_denotes_iff {lines : List String} {f : Formula} :
    List.Forall₂ Denotes lines f ↔ lines.map NameTable.lineNames = f.named := by
  induction lines generalizing f with
  | nil =>
      rw [List.forall₂_nil_left_iff, List.map_nil, Formula.named, eq_comm (a := []),
        List.map_eq_nil_iff]
  | cons line lines ih =>
      cases f with
      | nil => simp [Formula.named]
      | cons clause f =>
          rw [List.forall₂_cons, ih, Denotes.iff_lineNames, List.map_cons, Formula.named_cons,
            List.cons.injEq]

theorem isProper_of_forall₂_denotes {lines : List String} {f : Formula}
    (h : List.Forall₂ Denotes lines f) : ∀ clause ∈ f, ∀ s ∈ clause, IsProper s.name := by
  induction h with
  | nil => exact List.forall_mem_nil _
  | cons hline _ ih => exact List.forall_mem_cons.2 ⟨hline.proper, ih⟩

/-- The clauses that some lines denote, as a set, each as the set of its signed names. -/
def clauseSetOf (lines : List String) : Set (Set SignedName) :=
  {c | ∃ line ∈ lines, c = {s | IsProper s.name ∧ s.render.toList ∈ Text.words line.toList}}

theorem clauseSetOf_eq {lines : List String} {f : Formula} (h : List.Forall₂ Denotes lines f) :
    clauseSetOf lines = f.clauseSet := by
  induction h with
  | nil =>
      ext c
      simp [clauseSetOf, Formula.clauseSet]
  | @cons line clause lines f hline _ ih =>
      have hfirst : {s | IsProper s.name ∧ s.render.toList ∈ Text.words line.toList} =
          {s | s ∈ clause} := by
        ext s
        exact hline.mem_iff.symm
      ext c
      have hrest := Set.ext_iff.1 ih c
      simp only [clauseSetOf, Formula.clauseSet, Set.mem_ofPred_eq] at hrest ⊢
      rw [List.exists_mem_cons_iff, List.exists_mem_cons_iff, hfirst, hrest]

end CnfSolver
