import CnfSolver.Proofs.Formula
import CnfSolver.Proofs.NameTable.Decoding
import CnfSolver.Proofs.NameTable.Discovery
import CnfSolver.Proofs.NameTable.Faults
import CnfSolver.Proofs.Search.FirstModel

/-!
# Formulas and their encoding

A formula is always encoded, and the names that this adds to a table are those of the formula in the
order in which they occur. The models of the encoded clauses are the values of the table's names
that make the formula true.
-/

namespace CnfSolver

namespace Assignment

def valuesOf (names : List String) (value : String → Bool) : Assignment :=
  names.map fun name => some (value name).toInt

variable {names : List String}

@[simp] theorem length_valuesOf (names : List String) (value : String → Bool) :
    (valuesOf names value).length = names.length :=
  List.length_map ..

theorem isTotal_valuesOf (names : List String) (value : String → Bool) :
    IsTotal (valuesOf names value) := by
  intro x hx
  obtain ⟨name, -, rfl⟩ := List.mem_map.1 hx
  cases value name with
  | false => exact .inl rfl
  | true => exact .inr rfl

theorem exists_valuesOf (hnames : names.Nodup) {m : Assignment} (hm : m.IsTotal)
    (hlength : m.length = names.length) : ∃ value, m = valuesOf names value := by
  refine ⟨fun name => m[names.idxOf name]? == some (some 1), ?_⟩
  apply List.ext_getElem
  · rw [length_valuesOf, hlength]
  · intro i hi hi'
    have hlt : i < names.length := by omega
    simp only [valuesOf, List.getElem_map, hnames.idxOf_getElem i hlt,
      List.getElem?_eq_getElem hi]
    rcases hm m[i] (List.getElem_mem hi) with hzero | hone
    · simp [hzero]
    · simp [hone]

end Assignment

namespace NameTable

open Assignment (IsModel valuesOf)

variable {t : NameTable} {f : Formula} {cs : List Clause}

/-! ## Names in the order of their occurrence -/

theorem firstError?_map_ok (clause : List SignedName) : firstError? (clause.map .ok) = none := by
  unfold firstError?
  rw [List.findSome?_eq_none_iff]
  intro name hname
  obtain ⟨s, -, rfl⟩ := List.mem_map.1 hname
  rfl

theorem encodeAll_named (t : NameTable) (f : Formula) :
    ∃ cs, (t.encodeAll f.named).2 = .ok cs ∧ cs.any List.isEmpty = f.any List.isEmpty := by
  have hnone : f.named.findSome? firstError? = none := by
    rw [List.findSome?_eq_none_iff]
    intro names hnames
    obtain ⟨clause, -, rfl⟩ := List.mem_map.1 hnames
    exact firstError?_map_ok clause
  obtain ⟨cs, hok, hempty⟩ := encodeAll_of_no_error (t := t) hnone
  refine ⟨cs, hok, hempty.trans ?_⟩
  rw [Formula.named, List.any_map]
  simp only [Function.comp_def, List.isEmpty_map]

theorem names_number (t : NameTable) (ht : t.IsConsistent) (name : String) (names : List String) :
    ((t.number name).1.names ++ names).eraseDups = (t.names ++ name :: names).eraseDups := by
  rcases number_cases t name with ⟨i, hfind, heq⟩ | ⟨-, heq⟩
  · have hmem : name ∈ t.names := List.mem_iff_getElem?.2 ⟨i, (ht name i).1 hfind⟩
    rw [heq, eraseDups_append_cons hmem]
  · rw [heq, List.append_assoc, List.singleton_append]

theorem IsConsistent.names_encode (ht : t.IsConsistent) (clause : List SignedName)
    (names : List String) :
    ((t.encode (clause.map .ok)).1.names ++ names).eraseDups =
      (t.names ++ (clause.map SignedName.name ++ names)).eraseDups := by
  induction clause generalizing t with
  | nil => rfl
  | cons s clause ih =>
      rw [List.map_cons, encode_cons_ok, ih (ht.number s.name), names_number t ht]
      rfl

/-- A table gets the names of a formula behind its own, those that are new in the order in which
they first occur. -/
theorem IsConsistent.names_encodeAll (ht : t.IsConsistent) (f : Formula) :
    (t.encodeAll f.named).1.names = (t.names ++ f.flatten.map SignedName.name).eraseDups := by
  induction f generalizing t with
  | nil =>
      rw [List.flatten_nil, List.map_nil, List.append_nil, eraseDups_of_nodup ht.nodup]
      rfl
  | cons clause f ih =>
      obtain ⟨c, hc, -⟩ := encode_of_no_error (t := t) (firstError?_map_ok clause)
      rw [Formula.named_cons, encodeAll_cons_of_ok hc]
      show ((t.encode (clause.map .ok)).1.encodeAll (Formula.named f)).1.names = _
      rw [ih (ht.encode _), ht.names_encode, List.flatten_cons, List.map_append]

/-! ## The models of an encoded formula -/

theorem isFalse?_valuesOf {l : Literal} {s : SignedName} (h : t.signedName? l = some s)
    (value : String → Bool) :
    l.isFalse? (valuesOf t.names value) = some (value s.name == s.negated) := by
  obtain ⟨hnonneg, hname, hnegated⟩ := signedName?_eq_some.1 h
  have hvar : l.var = (l.var.toNat : Int) := (Int.toNat_of_nonneg hnonneg).symm
  have hsign : l.sign = s.negated.toInt := by
    rw [← hnegated, Literal.toInt_isNegated]
  have hget : Index.get? (valuesOf t.names value) l.var = some (some (value s.name).toInt) := by
    rw [hvar, Index.get?_natCast, valuesOf, List.getElem?_map, hname]
    rfl
  rw [Literal.isFalse?, hget, hsign]
  cases value s.name <;> cases s.negated <;> rfl

theorem Decodes.allFalse_iff {clause : Clause} {signed : List SignedName}
    (h : Decodes t clause (signed.map .ok)) (value : String → Bool) :
    clause.AllFalse (valuesOf t.names value) ↔ ∀ s ∈ signed, ¬s.Holds value := by
  induction clause generalizing signed with
  | nil =>
      have hnil := List.map_eq_nil_iff.1 (Decodes.nil_iff.1 h)
      simp [hnil, Clause.AllFalse]
  | cons l clause ih =>
      obtain ⟨s, rest, hs, hrest, heq⟩ := Decodes.cons_iff.1 h
      obtain ⟨s', signed', rfl, hs', rfl⟩ := List.map_eq_cons_iff.1 heq
      obtain rfl := Except.ok.inj hs'
      have hfalse : l.isFalse? (valuesOf t.names value) = some true ↔ ¬s'.Holds value := by
        rw [isFalse?_valuesOf hs, SignedName.Holds]
        simp
      have hclause : Clause.AllFalse (valuesOf t.names value) (l :: clause) ↔
          l.isFalse? (valuesOf t.names value) = some true ∧
            Clause.AllFalse (valuesOf t.names value) clause := List.forall_mem_cons
      rw [hclause, hfalse, ih hrest, List.forall_mem_cons]

theorem forall_not_allFalse_iff (h : List.Forall₂ t.Decodes cs f.named) (value : String → Bool) :
    (∀ c ∈ cs, ¬c.AllFalse (valuesOf t.names value)) ↔ f.Holds value := by
  induction f generalizing cs with
  | nil =>
      obtain rfl := List.forall₂_nil_right_iff.1 h
      simp [Formula.Holds]
  | cons signed f ih =>
      obtain ⟨clause, cs, hclause, hrest, rfl⟩ := List.forall₂_cons_right_iff.1 h
      have hholds : Formula.Holds value (signed :: f) ↔
          (∃ s ∈ signed, s.Holds value) ∧ Formula.Holds value f := List.forall_mem_cons
      rw [List.forall_mem_cons, ih hrest, hholds, hclause.allFalse_iff]
      simp

theorem isModel_valuesOf_iff (hcs : ∀ c ∈ cs, c.WellFormed t.size)
    (h : List.Forall₂ t.Decodes cs f.named) (value : String → Bool) :
    IsModel t.size cs (valuesOf t.names value) ↔ f.Holds value := by
  have htotal := Assignment.isTotal_valuesOf t.names value
  have hlength : (valuesOf t.names value).length = t.size := Assignment.length_valuesOf _ _
  have hrange : ∀ c ∈ cs, ∀ l ∈ c, l.InRange (valuesOf t.names value).length := by
    rw [hlength]
    exact fun c hc => (hcs c hc).inRange
  rw [← forall_not_allFalse_iff h, ← satisfies?_iff_of_isTotal htotal hrange]
  exact ⟨fun hm => hm.satisfies, fun hm => ⟨hlength, htotal, hm⟩⟩

/-- The models of the encoded clauses are the values of the names that make the formula true. -/
theorem isModel_iff (ht : t.names.Nodup) (hcs : ∀ c ∈ cs, c.WellFormed t.size)
    (h : List.Forall₂ t.Decodes cs f.named) {m : Assignment} :
    IsModel t.size cs m ↔ ∃ value, m = valuesOf t.names value ∧ f.Holds value := by
  constructor
  · intro hm
    obtain ⟨value, rfl⟩ := Assignment.exists_valuesOf ht hm.isTotal hm.length_eq
    exact ⟨value, rfl, (isModel_valuesOf_iff hcs h value).1 hm⟩
  · rintro ⟨value, rfl, hholds⟩
    exact (isModel_valuesOf_iff hcs h value).2 hholds

end NameTable

end CnfSolver
