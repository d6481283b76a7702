import CnfSolver.Proofs.Assignment.Truth
import CnfSolver.Proofs.NameTable.Consistency
import CnfSolver.Proofs.NameTable.Rendering
import Mathlib.Data.List.Forall2

/-!
# Clauses read back

Under the names of the table that encoded it a clause stands for the signed names from which it was
encoded. Since tables grow at the end only, it does so for good.
-/

namespace CnfSolver

namespace NameTable

/-- Under the names of the table the clause stands for the signed names. -/
def Decodes (t : NameTable) (clause : Clause) (names : List (Except Error SignedName)) : Prop :=
  ∃ signed, clause.mapM t.signedName? = some signed ∧ names = signed.map .ok

variable {t t' : NameTable}

theorem signedName?_eq_some {l : Literal} {s : SignedName} :
    t.signedName? l = some s ↔
      0 ≤ l.var ∧ t.names[l.var.toNat]? = some s.name ∧ l.isNegated = s.negated := by
  obtain ⟨name, negated⟩ := s
  unfold signedName?
  by_cases h : 0 ≤ l.var
  · simp [h]
  · simp [h]

theorem signedName?_of {i : Nat} {name : String} (h : t.names[i]? = some name) (negated : Bool) :
    t.signedName? (Literal.of i negated) = some ⟨name, negated⟩ := by
  rw [signedName?_eq_some]
  simp [h]

theorem signedName?_mono (h : t.names <+: t'.names) {l : Literal} {s : SignedName}
    (hs : t.signedName? l = some s) : t'.signedName? l = some s := by
  rw [signedName?_eq_some] at hs ⊢
  obtain ⟨hnonneg, hname, hnegated⟩ := hs
  obtain ⟨hlt, -⟩ := List.getElem?_eq_some_iff.1 hname
  rw [List.prefix_iff_getElem?.1 h _ hlt, ← List.getElem?_eq_getElem hlt]
  exact ⟨hnonneg, hname, hnegated⟩

namespace Decodes

variable {clause : Clause} {names : List (Except Error SignedName)}

theorem nil_iff : Decodes t [] names ↔ names = [] := by
  constructor
  · rintro ⟨signed, hsigned, rfl⟩
    obtain rfl : [] = signed := Option.some.inj hsigned
    rfl
  · rintro rfl
    exact ⟨[], rfl, rfl⟩

theorem cons_iff {l : Literal} :
    Decodes t (l :: clause) names ↔
      ∃ s rest, t.signedName? l = some s ∧ Decodes t clause rest ∧ names = .ok s :: rest := by
  unfold Decodes
  rw [List.mapM_cons]
  constructor
  · rintro ⟨signed, hsigned, rfl⟩
    obtain ⟨s, hs, hsigned⟩ := Option.bind_eq_some_iff.1 hsigned
    obtain ⟨rest, hrest, hsigned⟩ := Option.bind_eq_some_iff.1 hsigned
    obtain rfl := Option.some.inj hsigned
    exact ⟨s, rest.map .ok, hs, ⟨rest, hrest, rfl⟩, rfl⟩
  · rintro ⟨s, rest, hs, ⟨signed, hsigned, rfl⟩, rfl⟩
    refine ⟨s :: signed, ?_, rfl⟩
    rw [hs, hsigned]
    rfl

theorem mono (h : Decodes t clause names) (hgrown : t.names <+: t'.names) :
    Decodes t' clause names := by
  induction clause generalizing names with
  | nil => exact nil_iff.2 (nil_iff.1 h)
  | cons l clause ih =>
      obtain ⟨s, rest, hs, hrest, rfl⟩ := cons_iff.1 h
      exact cons_iff.2 ⟨s, rest, signedName?_mono hgrown hs, ih hrest, rfl⟩

/-- Integers that have been encoded have names, which their digits spell. -/
theorem numbered {integers : List Int}
    (h : Decodes t clause (integers.map SignedName.ofInteger)) :
    Decodes t clause (integers.map fun v => .ok (SignedName.numbered v)) := by
  obtain ⟨signed, hclause, heq⟩ := h
  refine ⟨signed, hclause, heq ▸ List.map_congr_left ?_⟩
  intro v hv
  have hmem : SignedName.ofInteger v ∈ signed.map .ok := heq ▸ List.mem_map_of_mem hv
  obtain ⟨s, -, hs⟩ := List.mem_map.1 hmem
  rw [← hs, SignedName.eq_numbered_of_ofInteger hs.symm]

theorem exists_of_inRange (h : ∀ l ∈ clause, l.InRange t.size) :
    ∃ names, Decodes t clause names := by
  induction clause with
  | nil => exact ⟨[], nil_iff.2 rfl⟩
  | cons l clause ih =>
      obtain ⟨hl, hclause⟩ := List.forall_mem_cons.1 h
      obtain ⟨rest, hrest⟩ := ih hclause
      obtain ⟨v, hlt, hvar⟩ := hl.exists_var
      have hs := signedName?_of (List.getElem?_eq_getElem hlt) l.isNegated
      rw [← hvar, Literal.of_var_isNegated] at hs
      exact ⟨_, cons_iff.2 ⟨_, rest, hs, hrest, rfl⟩⟩

theorem isProper (h : Decodes t clause names) (ht : ∀ name ∈ t.names, SignedName.IsProper name)
    {s : SignedName} (hs : .ok s ∈ names) : SignedName.IsProper s.name := by
  induction clause generalizing names with
  | nil =>
      rw [nil_iff.1 h] at hs
      exact absurd hs List.not_mem_nil
  | cons l clause ih =>
      obtain ⟨s', rest, hs', hrest, rfl⟩ := cons_iff.1 h
      rcases List.mem_cons.1 hs with heq | hs
      · obtain rfl := Except.ok.inj heq
        obtain ⟨-, hname, -⟩ := signedName?_eq_some.1 hs'
        exact ht s.name (List.mem_of_getElem? hname)
      · exact ih hrest hs

/-- Written as a line, the clause is read as what it stands for. -/
theorem exists_line (h : Decodes t clause names)
    (ht : ∀ name ∈ t.names, SignedName.IsProper name) :
    ∃ line, t.render? clause = some line ∧ lineNames line = names := by
  have hproper : ∀ s, .ok s ∈ names → SignedName.IsProper s.name := fun _ hs => h.isProper ht hs
  obtain ⟨signed, hclause, rfl⟩ := h
  refine ⟨" ".intercalate (signed.map SignedName.render), ?_, ?_⟩
  · rw [render?, hclause, Option.map_some]
  · exact lineNames_intercalate fun s hs => hproper s (List.mem_map_of_mem hs)

end Decodes

theorem exists_decodes {cs : List Clause} (h : ∀ c ∈ cs, c.WellFormed t.size) :
    ∃ named, List.Forall₂ t.Decodes cs named := by
  induction cs with
  | nil => exact ⟨[], .nil⟩
  | cons c cs ih =>
      obtain ⟨hc, hcs⟩ := List.forall_mem_cons.1 h
      obtain ⟨names, hnames⟩ := Decodes.exists_of_inRange hc.inRange
      obtain ⟨named, hnamed⟩ := ih hcs
      exact ⟨names :: named, .cons hnames hnamed⟩

theorem exists_lines (ht : ∀ name ∈ t.names, SignedName.IsProper name) {cs : List Clause}
    {named : List (List (Except Error SignedName))} (h : List.Forall₂ t.Decodes cs named) :
    ∃ lines, cs.mapM t.render? = some lines ∧ lines.map lineNames = named := by
  induction h with
  | nil => exact ⟨[], rfl, rfl⟩
  | cons hclause _ ih =>
      obtain ⟨line, hline, hnames⟩ := hclause.exists_line ht
      obtain ⟨lines, hlines, hnamed⟩ := ih
      refine ⟨line :: lines, ?_, ?_⟩
      · rw [List.mapM_cons, hline, hlines]
        rfl
      · rw [List.map_cons, hnames, hnamed]

/-! ## Encoded clauses -/

theorem IsConsistent.getElem?_number (ht : t.IsConsistent) (name : String) :
    (t.number name).1.names[(t.number name).2]? = some name := by
  rcases number_cases t name with ⟨i, hfind, heq⟩ | ⟨-, heq⟩
  · rw [heq]
    exact (ht name i).1 hfind
  · rw [heq]
    exact List.getElem?_concat_length

/-- The names that encoded a clause are those for which it stands. -/
theorem IsConsistent.decodes_encode (ht : t.IsConsistent) (names : List (Except Error SignedName))
    {clause : Clause} (h : (t.encode names).2 = .ok clause) :
    Decodes (t.encode names).1 clause names := by
  induction names generalizing t clause with
  | nil =>
      obtain rfl : [] = clause := Except.ok.inj h
      exact Decodes.nil_iff.2 rfl
  | cons name rest ih =>
      obtain ⟨s, clause', rfl, hrest, rfl⟩ := encode_cons_eq_ok h
      rw [encode_cons_ok]
      have hs := signedName?_of (ht.getElem?_number s.name) s.negated
      have hgrown := names_prefix_encode (t.number s.name).1 rest
      exact Decodes.cons_iff.2
        ⟨s, rest, signedName?_mono hgrown hs, ih (ht.number s.name) hrest, rfl⟩

theorem IsConsistent.decodes_encodeAll (ht : t.IsConsistent)
    (clauses : List (List (Except Error SignedName))) {cs : List Clause}
    (h : (t.encodeAll clauses).2 = .ok cs) :
    List.Forall₂ (Decodes (t.encodeAll clauses).1) cs clauses := by
  induction clauses generalizing t cs with
  | nil =>
      obtain rfl : [] = cs := Except.ok.inj h
      exact .nil
  | cons names rest ih =>
      obtain ⟨clause, cs', hfirst, hrest, rfl⟩ := encodeAll_cons_eq_ok h
      rw [encodeAll_cons_of_ok hfirst]
      have hgrown := names_prefix_encodeAll (t.encode names).1 rest
      exact .cons ((ht.decodes_encode names hfirst).mono hgrown)
        (ih (ht.encode names) hrest)

theorem IsConsistent.decodes_encodeIntegers (ht : t.IsConsistent) (integers : List (List Int))
    {cs : List Clause} (h : (t.encodeIntegers integers).2 = .ok cs) :
    List.Forall₂ (Decodes (t.encodeIntegers integers).1) cs
      (integers.map fun clause => clause.map fun v => .ok (SignedName.numbered v)) := by
  have hdecodes := List.forall₂_map_right_iff.1 (ht.decodes_encodeAll _ h)
  exact List.forall₂_map_right_iff.2 (hdecodes.imp fun _ _ hclause => hclause.numbered)

end NameTable

end CnfSolver
