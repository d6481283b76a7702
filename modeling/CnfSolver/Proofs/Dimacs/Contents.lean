import CnfSolver.Proofs.Dimacs.Faults
import CnfSolver.Proofs.Dimacs.Loading
import CnfSolver.Proofs.Text.Words
import CnfSolver.Proofs.Transcript

/-!
# What a file holds

A file of text holds clauses, unless some token is no numeral or a clause is empty. No clause that
is loaded has a zero in it or a number whose numeral is too long.
-/

namespace CnfSolver

namespace Dimacs

end Dimacs

namespace FileTree

variable {t : FileTree} {path : String} {e : Error}

/-- Why a path cannot be read apart from what is reported: it is no path, or its file is no text up
to where the end of the data is known. -/
inductive Escapes (t : FileTree) (path : String) : Error → Prop
  | notText {bytes : ByteArray} (hread : t.read path = .ok bytes)
      (h : Text.Reads Dimacs.endsEarly bytes none) : Escapes t path .notText
  | nulInPath (h : '\x00' ∈ path.toList) : Escapes t path .nulInPath

end FileTree

namespace Dimacs

/-! ## The numbers of a file -/

theorem mem_of_mem_clausesOf {values clause : List Int} (h : clause ∈ clausesOf values) :
    ∀ v ∈ clause, v ∈ values ∧ v ≠ 0 := by
  have hrun : clause ∈ values.splitOnP (· == 0) := by
    unfold clausesOf at h
    simp only at h
    split at h
    · exact (List.dropLast_sublist _).subset h
    · exact h
  intro v hv
  have hflat : v ∈ (values.splitOnP (· == 0)).flatten := List.mem_flatten.2 ⟨clause, hrun, hv⟩
  rw [Text.flatten_splitOnP, List.mem_filter] at hflat
  exact ⟨hflat.1, by simpa using hflat.2⟩

/-- Reading the tokens up to the first that is no numeral is reading them all. -/
theorem toOption_mapM_readToken (path : String) (tokens : List (List Char)) :
    (tokens.mapM (readToken path)).toOption = tokens.mapM Numeral.read? := by
  induction tokens with
  | nil => rfl
  | cons token tokens ih =>
      rw [List.mapM_cons, List.mapM_cons, ← ih, readToken]
      cases Numeral.read? token with
      | none => rfl
      | some v => cases tokens.mapM (readToken path) <;> rfl

theorem of_mapM_read? {tokens : List (List Char)} {values : List Int}
    (h : tokens.mapM Numeral.read? = some values) :
    ∀ v ∈ values, v.natAbs < 10 ^ Numeral.limit := by
  induction tokens generalizing values with
  | nil =>
      obtain rfl := Option.some.inj h
      exact List.forall_mem_nil _
  | cons token tokens ih =>
      rw [List.mapM_cons] at h
      obtain ⟨v, hv, h⟩ := Option.bind_eq_some_iff.1 h
      obtain ⟨rest, hrest, h⟩ := Option.bind_eq_some_iff.1 h
      obtain rfl := Option.some.inj h
      exact List.forall_mem_cons.2 ⟨Numeral.natAbs_lt_of_read? hv, ih hrest⟩

theorem of_read {path : String} {text : List Char} {clauses : List (List Int)}
    (h : read path text = .ok clauses) :
    ∀ clause ∈ clauses, ∀ v ∈ clause, v ≠ 0 ∧ v.natAbs < 10 ^ Numeral.limit := by
  unfold read at h
  split at h
  · next values hvalues =>
    obtain rfl := Except.ok.inj h
    have hread : (tokens text).mapM Numeral.read? = some values := by
      rw [← toOption_mapM_readToken path, hvalues]
      rfl
    intro clause hclause v hv
    obtain ⟨hmem, hne⟩ := mem_of_mem_clausesOf hclause v hv
    exact ⟨hne, of_mapM_read? hread v hmem⟩
  · exact nomatch h

theorem of_load {files : Files} {path : String} {clauses : List (List Int)}
    (h : (load files path).result = .ok clauses) :
    ∀ clause ∈ clauses, ∀ v ∈ clause, v ≠ 0 ∧ v.natAbs < 10 ^ Numeral.limit := by
  unfold load at h
  split at h
  · exact nomatch h
  · exact of_read h

theorem isQuiet_load (files : Files) (path : String) : (load files path).IsQuiet := by
  have hheaders : ∀ text, (headers path text).filter (fun e => e.level = .error) = [] := by
    intro text
    rw [headers, List.filter_map, List.map_eq_nil_iff]
    exact List.filter_false _
  unfold load
  split
  · exact ⟨rfl, rfl⟩
  · exact ⟨rfl, hheaders _⟩

/-! ## Loading a file of text -/

variable {files : Files} {path : String}

/-- A file is not loaded because it cannot be read, because it is no text up to where the end of the
data is known, or because a token of its text is no numeral. -/
theorem load_eq_error {e : Error} (h : (load files path).result = .error e) :
    files.read path = .error e ∨
      ∃ bytes, files.read path = .ok bytes ∧
        ((e = .notText ∧ Text.Reads endsEarly bytes none) ∨ ∃ text, read path text = .error e) := by
  unfold load at h
  cases hread : files.read path with
  | error e' =>
      simp only [Files.text, hread] at h
      exact .inl (congrArg _ (Except.error.inj h))
  | ok bytes =>
      refine .inr ⟨bytes, rfl, ?_⟩
      have hreads := Text.reads_read? endsEarly bytes
      simp only [Files.text, hread] at h
      cases htext : Text.read? endsEarly bytes with
      | none =>
          rw [htext] at h hreads
          exact .inl ⟨(Except.error.inj h).symm, hreads⟩
      | some text =>
          rw [htext] at h
          exact .inr ⟨text, h⟩

end Dimacs

end CnfSolver
