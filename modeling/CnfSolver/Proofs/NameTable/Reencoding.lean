import CnfSolver.Proofs.NameTable.Decoding
import CnfSolver.Proofs.NameTable.Discovery
import Mathlib.Data.List.Induction

/-!
# Clauses encoded again

A table that has only been numbering names is known from their list. Clauses whose variables come up
in the order of their numbers are found again when their names are encoded from the start: each name
is either numbered already or the next one in the list.
-/

namespace CnfSolver

namespace Discovers

/-- Reading on is reading up to a place and then going on from what is known there. -/
theorem of_append {vs ws : List Int} {n m : Nat} (h : Discovers n (vs ++ ws) m) :
    ∃ k, Discovers n vs k ∧ Discovers k ws m := by
  induction vs generalizing n with
  | nil => exact ⟨n, .nil n, h⟩
  | cons v vs ih =>
      cases h with
      | known hnonneg hlt rest =>
          obtain ⟨k, hfirst, hlast⟩ := ih rest
          exact ⟨k, .known hnonneg hlt hfirst, hlast⟩
      | new rest =>
          obtain ⟨k, hfirst, hlast⟩ := ih rest
          exact ⟨k, .new hfirst, hlast⟩

end Discovers

namespace NameTable

def ofNames (names : List String) : NameTable := ⟨names, names.zipIdx⟩

/-! ## Numbering the names of a list -/

theorem ofNames_concat (names : List String) (name : String) :
    ofNames (names ++ [name]) =
      ⟨(ofNames names).names ++ [name],
        (ofNames names).numbers ++ [(name, (ofNames names).size)]⟩ := by
  unfold ofNames size
  rw [List.zipIdx_append, Nat.zero_add]
  rfl

theorem eq_ofNames_number {t : NameTable} (ht : t = ofNames t.names) (name : String) :
    (t.number name).1 = ofNames (t.number name).1.names := by
  rcases number_cases t name with ⟨i, -, heq⟩ | ⟨-, heq⟩
  · rw [heq]
    exact ht
  · rw [heq, ofNames_concat, ← ht]

variable {names : List String} {name : String}

theorem number_ofNames_new (hnames : (ofNames names).IsConsistent) (hnew : name ∉ names) :
    (ofNames names).number name = (ofNames (names ++ [name]), names.length) := by
  have hnone : (ofNames names).find? name = none := hnames.find?_eq_none_iff.2 hnew
  rw [number, hnone, ofNames_concat]
  rfl

theorem isConsistent_ofNames (h : names.Nodup) : (ofNames names).IsConsistent := by
  induction names using List.reverseRecOn with
  | nil => exact isConsistent_empty
  | append_singleton names name ih =>
      obtain ⟨hnames, -, hdisjoint⟩ := List.nodup_append.1 h
      have hnew : name ∉ names := fun hmem => hdisjoint name hmem name List.mem_cons_self rfl
      have hconsistent := (ih hnames).number name
      rw [number_ofNames_new (ih hnames) hnew] at hconsistent
      exact hconsistent

theorem number_ofNames_known (hnames : names.Nodup) {i : Nat} (h : names[i]? = some name) :
    (ofNames names).number name = (ofNames names, i) := by
  have hfind : (ofNames names).find? name = some i := (isConsistent_ofNames hnames name i).2 h
  rw [number, hfind]

/-! ## From the first names of a table to more of them -/

variable {t : NameTable} {n m i : Nat}

theorem number_take_known (ht : t.names.Nodup) (h : t.names[i]? = some name) (hlt : i < n) :
    (ofNames (t.names.take n)).number name = (ofNames (t.names.take n), i) := by
  apply number_ofNames_known (ht.sublist (List.take_sublist n t.names))
  rw [List.getElem?_take_of_lt hlt, h]

theorem number_take_next (ht : t.names.Nodup) (h : t.names[n]? = some name) :
    (ofNames (t.names.take n)).number name = (ofNames (t.names.take (n + 1)), n) := by
  obtain ⟨hlt, rfl⟩ := List.getElem?_eq_some_iff.1 h
  have htake : t.names.take (n + 1) = t.names.take n ++ [t.names[n]] :=
    (List.take_append_getElem hlt).symm
  have hnodup := ht.sublist (List.take_sublist (n + 1) t.names)
  rw [htake] at hnodup ⊢
  obtain ⟨hnames, -, hdisjoint⟩ := List.nodup_append.1 hnodup
  rw [number_ofNames_new (isConsistent_ofNames hnames), List.length_take_of_le (Nat.le_of_lt hlt)]
  exact fun hmem => hdisjoint _ hmem _ List.mem_cons_self rfl

/-- The variable that is discovered next has its number, whether or not its name is among the first
ones already. -/
theorem number_take (ht : t.names.Nodup) {v : Int} {vs : List Int}
    (h : t.names[v.toNat]? = some name) (hdiscovers : Discovers n (v :: vs) m) :
    ∃ k, (ofNames (t.names.take n)).number name = (ofNames (t.names.take k), v.toNat) ∧
      Discovers k vs m := by
  cases hdiscovers with
  | known hnonneg hlt rest => exact ⟨n, number_take_known ht h (by omega), rest⟩
  | new rest => exact ⟨n + 1, number_take_next ht h, rest⟩

theorem encode_take (ht : t.names.Nodup) {clause : Clause} {signed : List (Except Error SignedName)}
    (hdecodes : t.Decodes clause signed) (hdiscovers : Discovers n (clause.map Literal.var) m) :
    (ofNames (t.names.take n)).encode signed = (ofNames (t.names.take m), .ok clause) := by
  induction clause generalizing n signed with
  | nil =>
      obtain rfl := Decodes.nil_iff.1 hdecodes
      obtain ⟨⟩ := hdiscovers
      rfl
  | cons l clause ih =>
      obtain ⟨s, rest, hs, hrest, rfl⟩ := Decodes.cons_iff.1 hdecodes
      obtain ⟨hnonneg, hname, hnegated⟩ := signedName?_eq_some.1 hs
      rw [List.map_cons] at hdiscovers
      obtain ⟨k, hnumber, hlater⟩ := number_take ht hname hdiscovers
      rw [encode_cons_ok, hnumber, ih hrest hlater]
      show (_, Except.ok (Literal.of l.var.toNat s.negated :: clause)) = _
      rw [← hnegated, Int.toNat_of_nonneg hnonneg, Literal.of_var_isNegated]

theorem encodeAll_take (ht : t.names.Nodup) {cs : List Clause}
    {named : List (List (Except Error SignedName))} (hdecodes : List.Forall₂ t.Decodes cs named)
    (hdiscovers : Discovers n (variablesOf cs) m) :
    (ofNames (t.names.take n)).encodeAll named = (ofNames (t.names.take m), .ok cs) := by
  induction hdecodes generalizing n with
  | nil =>
      obtain ⟨⟩ := hdiscovers
      rfl
  | @cons clause signed cs named hclause _ ih =>
      rw [variablesOf, List.flatten_cons, List.map_append] at hdiscovers
      obtain ⟨k, hfirst, hrest⟩ := hdiscovers.of_append
      have hencode := encode_take ht hclause hfirst
      rw [encodeAll_cons_of_ok (congrArg Prod.snd hencode), hencode, ih hrest]
      rfl

/-- Clauses that discover all names of a table are encoded again as they are, with the same
table. -/
theorem encodeAll_of_decodes (ht : t.names.Nodup) (heq : t = ofNames t.names) {cs : List Clause}
    {named : List (List (Except Error SignedName))} (hdecodes : List.Forall₂ t.Decodes cs named)
    (hdiscovers : Discovers 0 (variablesOf cs) t.size) :
    empty.encodeAll named = (t, .ok cs) := by
  calc empty.encodeAll named = (ofNames (t.names.take 0)).encodeAll named := rfl
    _ = (ofNames (t.names.take t.size), .ok cs) := encodeAll_take ht hdecodes hdiscovers
    _ = (t, .ok cs) := by rw [size, List.take_length, ← heq]

end NameTable

end CnfSolver
