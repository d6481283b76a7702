import CnfSolver.Proofs.NameTable.Decoding
import Mathlib

/-!
# Numbers as names

Signed integers are encoded under the names that their digits spell. Reading the names back gives
the integers again, and two literals share their variable just when the magnitudes agree. This
needs a bound on the magnitudes, since a longer numeral is neither written nor read.
-/

namespace CnfSolver.NameTable

open SignedName (numbered)

/-- The integer that a literal stands for: the name of its variable read as a numeral, with the
literal's sign. -/
def integer? (t : NameTable) (l : Literal) : Option Int :=
  (t.signedName? l).bind fun s =>
    (Numeral.read? s.name.toList).map fun v => if s.negated then -v else v

/-- Clause by clause the literals stand for the integers, and only integers of the same magnitude
share a variable. -/
structure StandFor (t : NameTable) (cs : List Clause) (integers : List (List Int)) : Prop where
  integer?_eq : cs.map (List.map t.integer?) = integers.map (List.map some)
  var_eq_iff : ∀ p ∈ cs.flatten.zip integers.flatten, ∀ q ∈ cs.flatten.zip integers.flatten,
    p.1.var = q.1.var ↔ p.2.natAbs = q.2.natAbs

variable {t : NameTable} {cs : List Clause} {integers : List (List Int)}

/-! ## One literal -/

variable {l l' : Literal} {v w : Int}

theorem integer?_of_numbered (hl : t.signedName? l = some (numbered v))
    (hv : v.natAbs < 10 ^ Numeral.limit) : t.integer? l = some v := by
  rw [integer?, hl, Option.bind_some, numbered, Numeral.read?_repr hv, Option.map_some]
  by_cases hneg : v < 0
  · simp only [hneg, decide_true, if_true, Option.some.injEq]
    omega
  · simp only [hneg, decide_false, Bool.false_eq_true, if_false, Option.some.injEq]
    omega

theorem var_eq_iff_of_numbered (ht : t.names.Nodup) (hl : t.signedName? l = some (numbered v))
    (hl' : t.signedName? l' = some (numbered w)) : l.var = l'.var ↔ v.natAbs = w.natAbs := by
  obtain ⟨hnonneg, hname, -⟩ := signedName?_eq_some.1 hl
  obtain ⟨hnonneg', hname', -⟩ := signedName?_eq_some.1 hl'
  constructor
  · intro heq
    rw [heq, hname'] at hname
    exact (Nat.repr_injective (Option.some.inj hname)).symm
  · intro heq
    have hsame : t.names[l.var.toNat]? = t.names[l'.var.toNat]? := by
      rw [hname, hname', numbered, numbered, heq]
    obtain ⟨hlt, -⟩ := List.getElem?_eq_some_iff.1 hname
    have hindex : l.var.toNat = l'.var.toNat := (List.getElem?_inj hlt ht).1 hsame
    omega

/-! ## Clauses -/

theorem Decodes.forall₂_numbered {clause : Clause} {vs : List Int}
    (h : t.Decodes clause (vs.map fun v => .ok (SignedName.numbered v))) :
    List.Forall₂ (fun l v => t.signedName? l = some (SignedName.numbered v)) clause vs := by
  induction clause generalizing vs with
  | nil =>
      obtain rfl := List.map_eq_nil_iff.1 (Decodes.nil_iff.1 h)
      exact .nil
  | cons l clause ih =>
      obtain ⟨s, rest, hs, hrest, heq⟩ := Decodes.cons_iff.1 h
      obtain ⟨v, vs, rfl, hv, rfl⟩ := List.map_eq_cons_iff.1 heq
      obtain rfl := Except.ok.inj hv
      exact .cons hs (ih hrest)

theorem map_integer?_of_numbered {clause : Clause} {vs : List Int}
    (h : List.Forall₂ (fun l v => t.signedName? l = some (numbered v)) clause vs)
    (hbound : ∀ v ∈ vs, v.natAbs < 10 ^ Numeral.limit) :
    clause.map t.integer? = vs.map some := by
  induction h with
  | nil => rfl
  | cons hl _ ih =>
      obtain ⟨hv, hvs⟩ := List.forall_mem_cons.1 hbound
      rw [List.map_cons, List.map_cons, integer?_of_numbered hl hv, ih hvs]

theorem map_map_integer?_of_numbered
    (h : List.Forall₂ (List.Forall₂ fun l v => t.signedName? l = some (numbered v)) cs integers)
    (hbound : ∀ clause ∈ integers, ∀ v ∈ clause, v.natAbs < 10 ^ Numeral.limit) :
    cs.map (List.map t.integer?) = integers.map (List.map some) := by
  induction h with
  | nil => rfl
  | cons hclause _ ih =>
      obtain ⟨hfirst, hrest⟩ := List.forall_mem_cons.1 hbound
      rw [List.map_cons, List.map_cons, map_integer?_of_numbered hclause hfirst, ih hrest]

/-- Encoded integers stand for themselves, whatever names the table had before. -/
theorem IsConsistent.standFor_encodeIntegers (ht : t.IsConsistent)
    (hbound : ∀ clause ∈ integers, ∀ v ∈ clause, v.natAbs < 10 ^ Numeral.limit)
    (h : (t.encodeIntegers integers).2 = .ok cs) :
    (t.encodeIntegers integers).1.StandFor cs integers := by
  have hdecodes := List.forall₂_map_right_iff.1 (ht.decodes_encodeIntegers integers h)
  have hnumbered := hdecodes.imp fun _ _ hclause => hclause.forall₂_numbered
  have hnodup : (t.encodeIntegers integers).1.names.Nodup := (ht.encodeAll _).nodup
  refine ⟨map_map_integer?_of_numbered hnumbered hbound, fun p hp q hq => ?_⟩
  have hflat := List.rel_flatten hnumbered
  exact var_eq_iff_of_numbered hnodup (List.forall₂_zip hflat hp) (List.forall₂_zip hflat hq)

end CnfSolver.NameTable
