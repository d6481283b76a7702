import CnfSolver.Proofs.Dimacs.Contents
import CnfSolver.Proofs.Formula.Integers
import CnfSolver.Proofs.Session.Formula
import CnfSolver.Proofs.Session.Integers

/-!
# Sessions and files

A session that takes a file into an empty table stands for the formula on its numbers. It refuses a
file that holds no clauses, and what it fails with is reported unless the file cannot be read as
text.
-/

namespace CnfSolver

def Files.Takes (files : Files) (path : String) : Prop :=
  (Session.empty.addDimacs files path).2.result = .ok ()

namespace Session

open Formula (ofIntegers)

variable {files : Files} {path : String} {clauses : List (List Int)}

theorem map_ofInteger (hbound : ∀ clause ∈ clauses, ∀ v ∈ clause, v.natAbs < 10 ^ Numeral.limit) :
    (clauses.map fun clause => clause.map SignedName.ofInteger) = (ofIntegers clauses).named := by
  rw [Formula.named, ofIntegers, List.map_map]
  apply List.map_congr_left
  intro clause hclause
  rw [Function.comp_apply, List.map_map]
  apply List.map_congr_left
  exact fun v hv => SignedName.ofInteger_eq_ok (hbound clause hclause v hv)

theorem isQuiet_addDimacs (s : Session) (files : Files) (path : String) :
    (s.addDimacs files path).2.IsQuiet := by
  have hload := Dimacs.isQuiet_load files path
  unfold addDimacs whenAccepting
  split
  · simp only
    split <;> exact ⟨hload.output, hload.errors⟩
  · exact ⟨rfl, rfl⟩

theorem addDimacs_of_load_eq_error {e : Error} (h : (Dimacs.load files path).result = .error e) :
    (empty.addDimacs files path).2.result = .error e := by
  rw [addDimacs, whenAccepting_of_accepting rfl]
  simp only [h]

/-- Once a file is loaded, only an empty clause makes the session refuse it. -/
theorem addDimacs_of_load_eq_ok (h : (Dimacs.load files path).result = .ok clauses) :
    (empty.addDimacs files path).1 = (empty.addNames (ofIntegers clauses).named).1 ∧
      (empty.addDimacs files path).2.result =
        verdict (emptyFault? (decide ([] ∈ clauses))) := by
  have hbound : ∀ clause ∈ clauses, ∀ v ∈ clause, v.natAbs < 10 ^ Numeral.limit :=
    fun clause hclause v hv => (Dimacs.of_load h clause hclause v hv).2
  have hencode : empty.table.encodeIntegers clauses =
      empty.table.encodeAll (ofIntegers clauses).named := by
    rw [← map_ofInteger hbound]
    rfl
  have hverdict : (empty.commitEncoded (empty.table.encodeAll (ofIntegers clauses).named)).2 =
      verdict (emptyFault? (decide ([] ∈ clauses))) := by
    rw [← map_ofInteger hbound, commitEncoded_encodeAll NameTable.isConsistent_empty,
      findSome?_ofInteger hbound, any_isEmpty_ofInteger, Option.none_or]
  rw [addDimacs, addNames, whenAccepting_of_accepting rfl, whenAccepting_of_accepting rfl]
  simp only [h, hencode]
  exact ⟨trivial, hverdict⟩

theorem represents_of_load (h : (Dimacs.load files path).result = .ok clauses)
    (hne : [] ∉ clauses) :
    files.Takes path ∧ (empty.addDimacs files path).1.Represents (ofIntegers clauses) := by
  obtain ⟨hsession, hresult⟩ := addDimacs_of_load_eq_ok h
  rw [Files.Takes, hsession, hresult, decide_eq_false hne]
  exact ⟨rfl, (represents_addNames (mt Formula.nil_mem_ofIntegers.1 hne)).2⟩

theorem exists_load_of_takes (h : files.Takes path) :
    ∃ clauses, (Dimacs.load files path).result = .ok clauses ∧
      (empty.addDimacs files path).1.Represents (ofIntegers clauses) := by
  unfold Files.Takes at h
  cases hload : (Dimacs.load files path).result with
  | error e =>
      rw [addDimacs_of_load_eq_error hload] at h
      exact nomatch h
  | ok clauses =>
      have hne : [] ∉ clauses := by
        intro hempty
        rw [(addDimacs_of_load_eq_ok hload).2, decide_eq_true hempty] at h
        exact nomatch h
      exact ⟨clauses, rfl, (represents_of_load hload hne).2⟩

end Session

end CnfSolver
