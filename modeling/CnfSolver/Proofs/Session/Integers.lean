import CnfSolver.Proofs.NameTable.Rendering
import CnfSolver.Proofs.Session.Batches

/-!
# Integers from files and from lines

Clauses of signed integers can be loaded from a file, or each be written as a line of text. Either
way a table encodes them alike, whatever names it has already, so a session that takes clauses takes
over the same batch or refuses it for the same empty clause.
-/

namespace CnfSolver.Session

open NameTable (Writes)

variable {s : Session} {clauses : List (List Int)} {lines : List String}

theorem findSome?_ofInteger
    (hbound : ∀ clause ∈ clauses, ∀ v ∈ clause, v.natAbs < 10 ^ Numeral.limit) :
    (clauses.map fun clause => clause.map SignedName.ofInteger).findSome?
      NameTable.firstError? = none := by
  rw [List.findSome?_eq_none_iff]
  intro names hnames
  obtain ⟨clause, hclause, rfl⟩ := List.mem_map.1 hnames
  unfold NameTable.firstError?
  rw [List.findSome?_eq_none_iff]
  intro name hname
  obtain ⟨v, hv, rfl⟩ := List.mem_map.1 hname
  rw [SignedName.ofInteger_eq_ok (hbound clause hclause v hv)]

theorem any_isEmpty_ofInteger (clauses : List (List Int)) :
    (clauses.map fun clause => clause.map SignedName.ofInteger).any List.isEmpty =
      decide ([] ∈ clauses) := by
  rw [Bool.eq_iff_iff, decide_eq_true_iff, List.any_eq_true]
  constructor
  · rintro ⟨names, hnames, hempty⟩
    obtain ⟨clause, hclause, rfl⟩ := List.mem_map.1 hnames
    rw [List.isEmpty_iff, List.map_eq_nil_iff] at hempty
    exact hempty ▸ hclause
  · intro hempty
    exact ⟨[], List.mem_map.2 ⟨[], hempty, rfl⟩, rfl⟩

theorem textFault?_of_writes (hlines : List.Forall₂ Writes clauses lines)
    (hbound : ∀ clause ∈ clauses, ∀ v ∈ clause, v.natAbs < 10 ^ Numeral.limit) :
    textFault? lines = emptyFault? (decide ([] ∈ clauses)) := by
  rw [← findSome?_lineNames, NameTable.map_lineNames_of_writes hlines hbound,
    findSome?_ofInteger hbound, any_isEmpty_ofInteger, Option.none_or]

theorem addDimacs_of_writes (haccepting : s.stage = .accepting)
    (hlines : List.Forall₂ Writes clauses lines)
    (hbound : ∀ clause ∈ clauses, ∀ v ∈ clause, v.natAbs < 10 ^ Numeral.limit)
    {files : Files} {path : String} (hload : (Dimacs.load files path).result = .ok clauses) :
    (s.addDimacs files path).1 = (s.addText lines).1 ∧
      (s.addDimacs files path).2.result = (s.addText lines).2.result := by
  have hencode : s.table.encodeIntegers clauses =
      s.table.encodeAll (lines.map NameTable.lineNames) :=
    s.table.encodeIntegers_eq_readLines hlines hbound
  rw [addDimacs, addText, addNames, whenAccepting_of_accepting haccepting,
    whenAccepting_of_accepting haccepting]
  simp only [hload, hencode]
  exact ⟨trivial, rfl⟩

theorem addText_eq_of_error {e : Error} (h : (s.addText lines).2.result = .error e) :
    (s.addText lines).1 = s := by
  let files := (FileTree.mk [] []).toFiles
  have hadding : Action.IsAdding (.addText lines) := trivial
  have hfailed : (s.perform files (.addText lines)).2.result = .error e :=
    Transcript.result_bind_done_eq_error.2 h
  exact perform_eq_of_error hadding hfailed

/-- The result of the lines is known from the clauses, of which an empty one changes nothing. -/
theorem addText_of_writes (h : Reaches (fun _ => True) .empty s) (haccepting : s.stage = .accepting)
    (hlines : List.Forall₂ Writes clauses lines)
    (hbound : ∀ clause ∈ clauses, ∀ v ∈ clause, v.natAbs < 10 ^ Numeral.limit) :
    ([] ∉ clauses ∧ (s.addText lines).2.result = .ok ()) ∨
      ([] ∈ clauses ∧ (s.addText lines).1 = s ∧
        (s.addText lines).2.result = .error (.emptyClause "cannot add an empty clause")) := by
  have hconsistent := (h.isCanonical isCanonical_empty).consistent
  have hresult := addText_of_accepting haccepting hconsistent lines
  rw [textFault?_of_writes hlines hbound] at hresult
  by_cases hempty : [] ∈ clauses
  · rw [decide_eq_true hempty] at hresult
    exact .inr ⟨hempty, addText_eq_of_error hresult, hresult⟩
  · rw [decide_eq_false hempty] at hresult
    exact .inl ⟨hempty, hresult⟩

/-- Clauses of integers are encoded as the lines on which they are written, whatever the table. And
a session that takes clauses is the same after a file of them as after the lines: it takes over the
clauses, or stays as it is for an empty one. -/
theorem integers_from_file_or_lines (hlines : List.Forall₂ Writes clauses lines)
    (hbound : ∀ clause ∈ clauses, ∀ v ∈ clause, v.natAbs < 10 ^ Numeral.limit) :
    (∀ t : NameTable, t.encodeIntegers clauses = t.readLines lines ∧
      ∃ encoded, (t.readLines lines).2 = .ok encoded) ∧
    ∀ (s : Session) (files : Files) (path : String), Reaches (fun _ => True) .empty s →
      s.stage = .accepting → (Dimacs.load files path).result = .ok clauses →
      (s.addDimacs files path).1 = (s.addText lines).1 ∧
      (s.addDimacs files path).2.result = (s.addText lines).2.result ∧
      (([] ∉ clauses ∧ (s.addText lines).2.result = .ok ()) ∨
        ([] ∈ clauses ∧ (s.addText lines).1 = s ∧
          (s.addText lines).2.result = .error (.emptyClause "cannot add an empty clause"))) := by
  constructor
  · intro t
    have hencode := t.encodeIntegers_eq_readLines hlines hbound
    obtain ⟨encoded, hok, -⟩ :=
      NameTable.encodeAll_of_no_error (t := t) (findSome?_ofInteger hbound)
    refine ⟨hencode, encoded, ?_⟩
    rw [← hencode]
    exact hok
  · intro s files path hreaches haccepting hload
    obtain ⟨hsession, hresult⟩ := addDimacs_of_writes haccepting hlines hbound hload
    exact ⟨hsession, hresult, addText_of_writes hreaches haccepting hlines hbound⟩

/-- The session has met numbers as names before, and numbered them otherwise. Of two files it takes
one and refuses the other. -/
theorem integers_from_file_or_lines_after_names :
    let files := (FileTree.mk
      [(["f.cnf"], "c 7\n 1 -2\t0 -3\n10 0".toUTF8), (["g.cnf"], "5 0 0".toUTF8)] []).toFiles
    let s := empty.performAll files [.addText ["A 2 ~1"]]
    (s.addDimacs files "f.cnf").1 = (s.addText ["1 ~2", " ~3\t10 "]).1 ∧
      (s.addText ["1 ~2", " ~3\t10 "]).1.clauses =
        [[⟨0⟩, ⟨2⟩, ⟨5⟩], [⟨4⟩, ⟨3⟩], [⟨7⟩, ⟨8⟩]] ∧
      (s.addDimacs files "g.cnf").2.result = (s.addText ["5", " "]).2.result ∧
      (s.addText ["5", " "]).1 = s := by
  intro files s
  have hreaches : Reaches (fun _ => True) .empty s :=
    Reaches.refl.performAll files fun _ _ => trivial
  have haccepting : s.stage = .accepting := by decide +kernel
  have hlines : List.Forall₂ Writes [[1, -2], [-3, 10]] ["1 ~2", " ~3\t10 "] := by decide +kernel
  have hlines' : List.Forall₂ Writes [[5], []] ["5", " "] := by decide +kernel
  obtain ⟨-, htaken⟩ := integers_from_file_or_lines hlines (by decide +kernel)
  obtain ⟨-, hrefused⟩ := integers_from_file_or_lines hlines' (by decide +kernel)
  have hf : (Dimacs.load files "f.cnf").result = .ok [[1, -2], [-3, 10]] := by decide +kernel
  have hg : (Dimacs.load files "g.cnf").result = .ok [[5], []] := by decide +kernel
  obtain ⟨hsame, -⟩ := htaken s files "f.cnf" hreaches haccepting hf
  obtain ⟨-, hresult, hcases⟩ := hrefused s files "g.cnf" hreaches haccepting hg
  refine ⟨hsame, by decide +kernel, hresult, ?_⟩
  rcases hcases with ⟨hnone, -⟩ | ⟨-, hkept, -⟩
  · exact absurd (by decide) hnone
  · exact hkept

end CnfSolver.Session
