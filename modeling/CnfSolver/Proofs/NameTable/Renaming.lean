import CnfSolver.Proofs.Formula
import CnfSolver.Proofs.NameTable.Growth
import Mathlib.Data.Set.Function

/-!
# Renaming

A table only asks whether two names are the same. So if names are replaced and no two of them become
one, the clauses are encoded as before, and the table has the new names where it had the old ones.
-/

namespace CnfSolver

def SignedName.rename (ρ : String → String) (s : SignedName) : SignedName :=
  ⟨ρ s.name, s.negated⟩

def Formula.rename (ρ : String → String) (f : Formula) : Formula :=
  f.map fun clause => clause.map (SignedName.rename ρ)

namespace NameTable

def rename (ρ : String → String) (t : NameTable) : NameTable :=
  ⟨t.names.map ρ, t.numbers.map fun entry => (ρ entry.1, entry.2)⟩

def IsOver (S : Set String) (t : NameTable) : Prop := ∀ entry ∈ t.numbers, entry.1 ∈ S

variable {ρ : String → String} {S : Set String} {t : NameTable} {name : String}

@[simp] theorem size_rename (ρ : String → String) (t : NameTable) : (t.rename ρ).size = t.size :=
  List.length_map ..

theorem isOver_empty : empty.IsOver S := List.forall_mem_nil _

theorem IsOver.number (ht : t.IsOver S) (hname : name ∈ S) : (t.number name).1.IsOver S := by
  rcases number_cases t name with ⟨i, -, heq⟩ | ⟨-, heq⟩
  · rw [heq]
    exact ht
  · rw [heq, IsOver, List.forall_mem_append, List.forall_mem_singleton]
    exact ⟨ht, hname⟩

theorem find?_rename (hρ : Set.InjOn ρ S) (ht : t.IsOver S) (hname : name ∈ S) :
    (t.rename ρ).find? (ρ name) = t.find? name := by
  obtain ⟨names, numbers⟩ := t
  simp only [find?, rename]
  induction numbers with
  | nil => rfl
  | cons entry numbers ih =>
      obtain ⟨hentry, hrest⟩ := List.forall_mem_cons.1 ht
      have hsame : (ρ name == ρ entry.1) = (name == entry.1) := by
        rw [Bool.eq_iff_iff, beq_iff_eq, beq_iff_eq]
        exact hρ.eq_iff hname hentry
      rw [List.map_cons, List.lookup_cons, List.lookup_cons, hsame, ih hrest]

theorem number_rename (hρ : Set.InjOn ρ S) (ht : t.IsOver S) (hname : name ∈ S) :
    (t.rename ρ).number (ρ name) = ((t.number name).1.rename ρ, (t.number name).2) := by
  have hfind := find?_rename hρ ht hname
  rcases number_cases t name with ⟨i, hsome, heq⟩ | ⟨hnone, heq⟩
  · rw [number, hfind, hsome, heq]
  · rw [number, hfind, hnone, heq, size_rename]
    simp [rename]

/-! ## Clauses -/

theorem IsOver.encode (ht : t.IsOver S) {clause : List SignedName}
    (hclause : ∀ s ∈ clause, s.name ∈ S) : (t.encode (clause.map .ok)).1.IsOver S := by
  refine encode_induct (P := IsOver S) (fun t s hs ht => ht.number ?_) ht
  obtain ⟨s', hs', heq⟩ := List.mem_map.1 hs
  obtain rfl := Except.ok.inj heq
  exact hclause s' hs'

theorem encode_rename (hρ : Set.InjOn ρ S) (ht : t.IsOver S) {clause : List SignedName}
    (hclause : ∀ s ∈ clause, s.name ∈ S) :
    (t.rename ρ).encode ((clause.map (SignedName.rename ρ)).map .ok) =
      ((t.encode (clause.map .ok)).1.rename ρ, (t.encode (clause.map .ok)).2) := by
  induction clause generalizing t with
  | nil => rfl
  | cons s clause ih =>
      obtain ⟨hs, hrest⟩ := List.forall_mem_cons.1 hclause
      have hnumber : (t.rename ρ).number (s.rename ρ).name = _ := number_rename hρ ht hs
      rw [List.map_cons, List.map_cons, List.map_cons, encode_cons_ok, encode_cons_ok, hnumber]
      simp only [ih (ht.number hs) hrest]
      rfl

theorem encodeAll_rename (hρ : Set.InjOn ρ S) (ht : t.IsOver S) {f : Formula}
    (hf : ∀ clause ∈ f, ∀ s ∈ clause, s.name ∈ S) :
    (t.rename ρ).encodeAll (f.rename ρ).named =
      ((t.encodeAll f.named).1.rename ρ, (t.encodeAll f.named).2) := by
  induction f generalizing t with
  | nil => rfl
  | cons clause f ih =>
      obtain ⟨hclause, hrest⟩ := List.forall_mem_cons.1 hf
      have hfirst := encode_rename hρ ht hclause
      have hrename : (Formula.rename ρ (clause :: f)).named =
          (clause.map (SignedName.rename ρ)).map .ok :: (Formula.rename ρ f).named := rfl
      rw [hrename, Formula.named_cons]
      cases hencode : (t.encode (clause.map .ok)).2 with
      | error e =>
          have hencode' : ((t.rename ρ).encode ((clause.map (SignedName.rename ρ)).map .ok)).2 =
              .error e := by
            rw [hfirst]
            exact hencode
          rw [encodeAll_cons_of_error hencode, encodeAll_cons_of_error hencode', hfirst]
      | ok encoded =>
          have hencode' : ((t.rename ρ).encode ((clause.map (SignedName.rename ρ)).map .ok)).2 =
              .ok encoded := by
            rw [hfirst]
            exact hencode
          rw [encodeAll_cons_of_ok hencode, encodeAll_cons_of_ok hencode', hfirst]
          simp only [ih (ht.encode hclause) hrest]

end NameTable

end CnfSolver
