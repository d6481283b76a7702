import CnfSolver.Proofs.Formula.Text
import CnfSolver.Proofs.NameTable.Renaming

/-!
# Renamed lines of text

A line is renamed if the name in each of its tokens is replaced and the tilde in front of it is
kept. What the line denotes is then renamed too, if the new names can stand in a line at all.
-/

namespace CnfSolver

namespace SignedName

def nameOfToken : List Char → String
  | '~' :: cs => String.ofList cs
  | cs => String.ofList cs

def renameToken (ρ : String → String) : List Char → List Char
  | '~' :: cs => '~' :: (ρ (String.ofList cs)).toList
  | cs => (ρ (String.ofList cs)).toList

variable {s : SignedName}

theorem IsProper.ne_tilde_cons {name : String} (h : IsProper name) (cs : List Char) :
    name.toList ≠ '~' :: cs :=
  fun heq => h.ne_tilde '~' (heq ▸ List.mem_cons_self) rfl

theorem nameOfToken_render (h : IsProper s.name) : nameOfToken s.render.toList = s.name := by
  rw [toList_render]
  cases s.negated with
  | true => exact String.ofList_toList
  | false =>
      rw [if_neg Bool.false_ne_true]
      unfold nameOfToken
      split
      · next cs heq => exact absurd heq (h.ne_tilde_cons cs)
      · exact String.ofList_toList

theorem renameToken_render (ρ : String → String) (h : IsProper s.name) :
    renameToken ρ s.render.toList = (s.rename ρ).render.toList := by
  rw [toList_render, toList_render, rename]
  cases s.negated with
  | true => rw [if_pos rfl, if_pos rfl, renameToken, String.ofList_toList]
  | false =>
      rw [if_neg Bool.false_ne_true, if_neg Bool.false_ne_true]
      unfold renameToken
      split
      · next cs heq => exact absurd heq (h.ne_tilde_cons cs)
      · rw [String.ofList_toList]

end SignedName

open SignedName (IsProper nameOfToken renameToken)

def namesIn (lines : List String) : Set String :=
  {name | ∃ line ∈ lines, ∃ token ∈ Text.words line.toList, nameOfToken token = name}

/-- One line is the other with its names replaced, however the two are spaced. -/
def Renames (ρ : String → String) (line line' : String) : Prop :=
  Text.Spaced ((Text.words line.toList).map (renameToken ρ)) line'.toList

instance (ρ : String → String) (line line' : String) : Decidable (Renames ρ line line') :=
  inferInstanceAs (Decidable (Text.Spaced _ _))

variable {ρ : String → String}

theorem Denotes.words_eq {line : String} {clause : List SignedName} (h : Denotes line clause) :
    Text.words line.toList = clause.map fun s => s.render.toList :=
  h.spaced.words_eq

theorem Denotes.rename {line line' : String} {clause : List SignedName} (h : Denotes line clause)
    (hline : Renames ρ line line') (hproper : ∀ s ∈ clause, IsProper (ρ s.name)) :
    Denotes line' (clause.map (SignedName.rename ρ)) where
  spaced := by
    have htokens : (Text.words line.toList).map (renameToken ρ) =
        (clause.map (SignedName.rename ρ)).map fun s => s.render.toList := by
      rw [h.words_eq, List.map_map, List.map_map]
      exact List.map_congr_left fun s hs => SignedName.renameToken_render ρ (h.proper s hs)
    rw [← htokens]
    exact hline
  proper := List.forall_mem_map.2 hproper

theorem mem_namesIn {lines : List String} {f : Formula} (h : List.Forall₂ Denotes lines f) :
    ∀ clause ∈ f, ∀ s ∈ clause, s.name ∈ namesIn lines := by
  induction h with
  | nil => exact List.forall_mem_nil _
  | @cons line clause lines f hline _ ih =>
      refine List.forall_mem_cons.2 ⟨fun s hs => ?_, fun clause' hclause' s hs => ?_⟩
      · have htoken : s.render.toList ∈ Text.words line.toList := (hline.mem_iff.1 hs).2
        have hname := SignedName.nameOfToken_render (hline.proper s hs)
        exact ⟨line, List.mem_cons_self, _, htoken, hname⟩
      · obtain ⟨line', hline', hname⟩ := ih clause' hclause' s hs
        exact ⟨line', List.mem_cons_of_mem line hline', hname⟩

theorem forall₂_denotes_rename {lines lines' : List String} {f : Formula}
    (h : List.Forall₂ Denotes lines f) (hlines : List.Forall₂ (Renames ρ) lines lines')
    (hproper : ∀ clause ∈ f, ∀ s ∈ clause, IsProper (ρ s.name)) :
    List.Forall₂ Denotes lines' (f.rename ρ) := by
  induction h generalizing lines' with
  | nil =>
      obtain rfl := List.forall₂_nil_left_iff.1 hlines
      exact .nil
  | @cons line clause lines f hline _ ih =>
      obtain ⟨hclause, hrest⟩ := List.forall_mem_cons.1 hproper
      obtain ⟨line', lines', hline', hlines', rfl⟩ := List.forall₂_cons_left_iff.1 hlines
      exact .cons (hline.rename hline' hclause) (ih hlines' hrest)

end CnfSolver
