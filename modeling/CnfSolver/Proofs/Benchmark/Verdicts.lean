import CnfSolver.Proofs.Benchmark

/-!
# The verdicts of a benchmark

A run goes through the folders in order, and through the files of each in order, up to the first
that cannot be listed or taken. If there is none, the run logs the files whose verdict is wrong and
prints how many files each folder has, and its status tells whether something was logged.
-/

namespace CnfSolver

def Files.IsSatisfiable (files : Files) (path : String) : Prop :=
  ∃ clauses, (Dimacs.load files path).result = .ok clauses ∧ Dimacs.IsSatisfiable clauses

theorem Files.isSatisfiable_iff {files : Files} {path : String} {clauses : List (List Int)}
    (h : (Dimacs.load files path).result = .ok clauses) :
    files.IsSatisfiable path ↔ Dimacs.IsSatisfiable clauses := by
  rw [IsSatisfiable, h]
  simp

instance (files : Files) (path : String) : Decidable (files.IsSatisfiable path) :=
  match h : (Dimacs.load files path).result with
  | .ok _ => decidable_of_iff _ (Files.isSatisfiable_iff h).symm
  | .error _ => isFalse fun ⟨_, hok, _⟩ => by rw [h] at hok; exact nomatch hok

namespace Benchmark

def IsRight (files : Files) (root folder name : String) : Prop :=
  (startsWith "uf" folder = true → files.IsSatisfiable (joinPath (joinPath root folder) name)) ∧
    (startsWith "uuf" folder = true → ¬files.IsSatisfiable (joinPath (joinPath root folder) name))

instance (files : Files) (root folder name : String) :
    Decidable (IsRight files root folder name) :=
  inferInstanceAs (Decidable (_ ∧ _))

def wrongVerdicts (files : Files) (root folder : String) : List Event :=
  ((instances files root folder).filter fun name => ¬IsRight files root folder name).map
    fun name => .wrongVerdict folder name

def summary (files : Files) (root folder : String) : List Piece :=
  if instances files root folder = [] then []
  else [.benchmark folder (instances files root folder).length]

/-! ## Folders -/

theorem not_startsWith_uf_and_uuf (folder : String) :
    ¬(startsWith "uf" folder = true ∧ startsWith "uuf" folder = true) := by
  unfold startsWith
  rintro ⟨huf, huuf⟩
  obtain ⟨rest, hrest⟩ := List.isPrefixOf_iff_prefix.1 huf
  obtain ⟨rest', hrest'⟩ := List.isPrefixOf_iff_prefix.1 huuf
  rw [← hrest] at hrest'
  exact absurd hrest' (by simp)

theorem expected?_cases (folder : String) :
    (isFolder folder = false ∧ expected? folder = none) ∨
    ∃ expected, isFolder folder = true ∧ expected? folder = some expected ∧
      ∀ files root name, IsRight files root folder name ↔
        (files.IsSatisfiable (joinPath (joinPath root folder) name) ↔ expected = true) := by
  have hnot := not_startsWith_uf_and_uuf folder
  unfold isFolder expected? IsRight
  cases huf : startsWith "uf" folder with
  | true =>
      have huuf : startsWith "uuf" folder = false := by simpa [huf] using hnot
      exact .inr ⟨true, by simp [huuf]⟩
  | false =>
      cases huuf : startsWith "uuf" folder with
      | true => exact .inr ⟨false, by simp⟩
      | false => exact .inl (by simp)

/-! ## Reports -/

/-- The computation succeeds, having printed these pieces and logged these errors, and gives their
number. -/
structure Reports (t : Transcript Nat) (output : List Piece) (errors : List Event) : Prop where
  output_eq : t.output = output
  errors_eq : t.errors = errors
  result_eq : t.result = .ok errors.length

namespace Reports

variable {t t' : Transcript Nat} {output output' : List Piece} {errors errors' : List Event}

theorem of_quiet {α : Type} {t : Transcript α} {a : α} {f : α → Transcript Nat} (ht : t.IsQuiet)
    (hr : t.result = .ok a) (h : Reports (f a) output errors) :
    Reports (t.bind f) output errors where
  output_eq := by rw [Transcript.bind_of_ok hr, ht.output, h.output_eq, List.nil_append]
  errors_eq := by rw [Transcript.errors_bind_of_ok hr, ht.errors, h.errors_eq, List.nil_append]
  result_eq := by rw [Transcript.result_bind_of_ok hr, h.result_eq]

theorem print (h : Reports t output errors) (pieces : List Piece) :
    Reports (t.bind fun wrong => ⟨pieces, [], .ok wrong⟩) (output ++ pieces) errors where
  output_eq := by rw [Transcript.bind_of_ok h.result_eq, h.output_eq]
  errors_eq := by
    rw [Transcript.errors_bind_of_ok h.result_eq, h.errors_eq]
    exact List.append_nil _
  result_eq := by rw [Transcript.result_bind_of_ok h.result_eq]

theorem add (h : Reports t output errors) (h' : Reports t' output' errors') :
    Reports (t.bind fun wrong => t'.bind fun more => .done (wrong + more)) (output ++ output')
      (errors ++ errors') where
  output_eq := by
    rw [Transcript.bind_of_ok h.result_eq, Transcript.bind_of_ok h'.result_eq, h.output_eq,
      h'.output_eq]
    exact congrArg _ (List.append_nil _)
  errors_eq := by
    rw [Transcript.errors_bind_of_ok h.result_eq, Transcript.errors_bind_of_ok h'.result_eq,
      h.errors_eq, h'.errors_eq]
    exact congrArg _ (List.append_nil _)
  result_eq := by
    rw [Transcript.result_bind_of_ok h.result_eq, Transcript.result_bind_of_ok h'.result_eq,
      List.length_append]
    rfl

end Reports

/-! ## Files -/

variable {files : Files} {expected : Bool} {root folder path name : String} {e : Error}

theorem solveFile_eq (files : Files) (expected : Bool) (folder path name : String) :
    solveFile files expected folder path name =
      (Session.empty.addDimacs files (joinPath path name)).2.bind fun _ =>
        (Session.empty.addDimacs files (joinPath path name)).1.solve.2.bind fun solution =>
          if solution.isModel = expected then .done 0
          else ⟨[], [.wrongVerdict folder name], .ok 1⟩ := rfl

theorem reports_solveFile (htakes : files.Takes (joinPath path name)) (expected : Bool)
    (folder : String) :
    Reports (solveFile files expected folder path name) []
      (if files.IsSatisfiable (joinPath path name) ↔ expected = true then []
        else [.wrongVerdict folder name]) := by
  obtain ⟨clauses, hload, hs⟩ := Session.exists_load_of_takes htakes
  obtain ⟨solution, hsolve, hsolves, -⟩ := hs.sound.solve
  have hnonzero : ∀ clause ∈ clauses, ∀ v ∈ clause, v ≠ 0 :=
    fun clause hclause v hv => (Dimacs.of_load hload clause hclause v hv).1
  have hverdict : solution.isModel = expected ↔
      (files.IsSatisfiable (joinPath path name) ↔ expected = true) := by
    rw [Bool.eq_iff_iff, (hs.decides_of_solves hsolves).isModel_iff,
      Formula.isSatisfiable_ofIntegers hnonzero, Files.isSatisfiable_iff hload]
  rw [solveFile_eq]
  apply Reports.of_quiet (Session.isQuiet_addDimacs _ _ _) htakes
  apply Reports.of_quiet (Session.isQuiet_solve _) hsolve
  by_cases hright : files.IsSatisfiable (joinPath path name) ↔ expected = true
  · rw [if_pos hright, if_pos (hverdict.2 hright)]
    exact ⟨rfl, rfl, rfl⟩
  · rw [if_neg hright, if_neg (mt hverdict.1 hright)]
    exact ⟨rfl, rfl, rfl⟩

theorem reports_solveFiles {names : List String}
    (htakes : ∀ name ∈ names, files.Takes (joinPath path name)) (expected : Bool)
    (folder : String) :
    Reports (solveFiles files expected folder path names) []
      ((names.filter fun name => ¬(files.IsSatisfiable (joinPath path name) ↔ expected = true)).map
        fun name => .wrongVerdict folder name) := by
  induction names with
  | nil => exact ⟨rfl, rfl, rfl⟩
  | cons name names ih =>
      obtain ⟨hname, hnames⟩ := List.forall_mem_cons.1 htakes
      have hreports := (reports_solveFile hname expected folder).add (ih hnames)
      by_cases hright : files.IsSatisfiable (joinPath path name) ↔ expected = true
      · rw [if_pos hright] at hreports
        rw [List.filter_cons, if_neg (mt of_decide_eq_true (not_not_intro hright))]
        exact hreports
      · rw [if_neg hright] at hreports
        rw [List.filter_cons, if_pos (decide_eq_true hright)]
        exact hreports

theorem result_solveFiles_of_fault {names : List String}
    (h : (names.findSome? fun name => fileFault? files (joinPath path name)) = some e) :
    (solveFiles files expected folder path names).result = .error e := by
  induction names with
  | nil => exact nomatch h
  | cons name names ih =>
      rw [List.findSome?_cons] at h
      rw [solveFiles]
      cases hfirst : fileFault? files (joinPath path name) with
      | some e' =>
          rw [hfirst] at h
          obtain rfl := Option.some.inj h
          rw [solveFile_eq, Transcript.bind_of_error (result_of_fileFault? hfirst),
            Transcript.bind_of_error rfl]
      | none =>
          rw [hfirst] at h
          have hreports := reports_solveFile (fileFault?_eq_none_iff.1 hfirst) expected folder
          rw [Transcript.result_bind_of_ok hreports.result_eq, Transcript.bind_of_error (ih h)]

/-! ## Folders of files -/

theorem solveFolder_of_list {names : List String}
    (h : files.list (joinPath root folder) = .ok names) (expected : Bool) :
    solveFolder files expected root folder =
      (solveFiles files expected folder (joinPath root folder) (instances files root folder)).bind
        fun wrong => ⟨summary files root folder, [], .ok wrong⟩ := by
  have hinstances : sorted (names.filter isInstance) = instances files root folder := by
    rw [instances, listed_of_list h]
  rw [solveFolder, h]
  change (solveFiles _ _ _ _ (sorted (names.filter isInstance))).bind _ = _
  rw [hinstances, summary]
  congr 1
  funext wrong
  cases instances files root folder with
  | nil => rfl
  | cons name names => rfl

theorem result_solveFolder_of_fault (h : folderFault? files root folder = some e) :
    (solveFolder files expected root folder).result = .error e := by
  unfold folderFault? at h
  split at h
  · next names hlist =>
    rw [solveFolder_of_list hlist, Transcript.bind_of_error (result_solveFiles_of_fault h)]
  · next e' hlist =>
    obtain rfl := Option.some.inj h
    rw [solveFolder, hlist]
    rfl

theorem reports_solveFolder (h : folderFault? files root folder = none)
    (hright : ∀ name, IsRight files root folder name ↔
      (files.IsSatisfiable (joinPath (joinPath root folder) name) ↔ expected = true)) :
    Reports (solveFolder files expected root folder) (summary files root folder)
      (wrongVerdicts files root folder) := by
  unfold folderFault? at h
  split at h
  · next names hlist =>
    rw [List.findSome?_eq_none_iff] at h
    have htakes : ∀ name ∈ instances files root folder,
        files.Takes (joinPath (joinPath root folder) name) :=
      fun name hname => fileFault?_eq_none_iff.1 (h name hname)
    have hreports := (reports_solveFiles htakes expected folder).print (summary files root folder)
    simp only [← hright] at hreports
    rw [solveFolder_of_list hlist]
    exact hreports
  · exact nomatch h

theorem result_solveFolders_of_fault {names : List String}
    (h : (names.filter isFolder).findSome? (folderFault? files root) = some e) :
    (solveFolders files root names).result = .error e := by
  induction names with
  | nil => exact nomatch h
  | cons folder names ih =>
      rw [solveFolders]
      rcases expected?_cases folder with ⟨hfolder, hnone⟩ | ⟨expected, hfolder, hsome, hright⟩
      · rw [List.filter_cons, hfolder] at h
        rw [hnone]
        exact ih h
      · rw [List.filter_cons, hfolder, if_pos rfl, List.findSome?_cons] at h
        rw [hsome]
        cases hfirst : folderFault? files root folder with
        | some e' =>
            rw [hfirst] at h
            obtain rfl := Option.some.inj h
            exact congrArg _ (Transcript.bind_of_error (result_solveFolder_of_fault hfirst) _)
        | none =>
            rw [hfirst] at h
            have hreports := reports_solveFolder hfirst (hright files root)
            simp only
            rw [Transcript.result_bind_of_ok hreports.result_eq, Transcript.bind_of_error (ih h)]

theorem reports_solveFolders {names : List String}
    (h : ∀ folder ∈ names.filter isFolder, folderFault? files root folder = none) :
    Reports (solveFolders files root names) ((names.filter isFolder).flatMap (summary files root))
      ((names.filter isFolder).flatMap (wrongVerdicts files root)) := by
  induction names with
  | nil => exact ⟨rfl, rfl, rfl⟩
  | cons folder names ih =>
      rw [solveFolders]
      rcases expected?_cases folder with ⟨hfolder, hnone⟩ | ⟨expected, hfolder, hsome, hright⟩
      · rw [List.filter_cons, hfolder] at h ⊢
        rw [hnone]
        exact ih h
      · rw [List.filter_cons, hfolder, if_pos rfl] at h ⊢
        obtain ⟨hfirst, hrest⟩ := List.forall_mem_cons.1 h
        rw [hsome, List.flatMap_cons, List.flatMap_cons]
        exact (reports_solveFolder hfirst (hright files root)).add (ih hrest)

/-! ## The whole benchmark -/

theorem run_of_list {names : List String} (h : files.list root = .ok names) :
    run files root = (solveFolders files root (sorted names)).bind fun wrong =>
      .done (if wrong = 0 then 0 else 1) := by
  rw [run, h]
  rfl

theorem result_run_of_fault (h : fault? files root = some e) :
    (run files root).result = .error e := by
  unfold fault? at h
  split at h
  · next names hlist =>
    rw [folders, listed_of_list hlist] at h
    rw [run_of_list hlist, Transcript.bind_of_error (result_solveFolders_of_fault h)]
  · next e' hlist =>
    obtain rfl := Option.some.inj h
    rw [run, hlist]
    rfl

/-- A benchmark without a fault gives all summaries and all wrong verdicts, in the order of the
folders. -/
theorem run_of_no_fault (h : fault? files root = none) :
    (run files root).output = (folders files root).flatMap (summary files root) ∧
    (run files root).errors = (folders files root).flatMap (wrongVerdicts files root) ∧
    (run files root).result =
      .ok (if (folders files root).flatMap (wrongVerdicts files root) = [] then 0 else 1) := by
  unfold fault? at h
  cases hlist : files.list root with
  | error e =>
      rw [hlist] at h
      exact nomatch h
  | ok names =>
      have hfolders : folders files root = (sorted names).filter isFolder := by
        rw [folders, listed_of_list hlist]
      rw [hlist, hfolders] at h
      have hreports := reports_solveFolders (List.findSome?_eq_none_iff.1 h)
      rw [run_of_list hlist, Transcript.errors_bind_of_ok hreports.result_eq,
        Transcript.bind_of_ok hreports.result_eq, hreports.output_eq, hreports.errors_eq, hfolders]
      refine ⟨List.append_nil _, List.append_nil _, ?_⟩
      simp only [List.length_eq_zero_iff]
      rfl

theorem flatMap_wrongVerdicts_eq_nil :
    (folders files root).flatMap (wrongVerdicts files root) = [] ↔
      ∀ folder ∈ folders files root, ∀ name ∈ instances files root folder,
        IsRight files root folder name := by
  rw [List.flatMap_eq_nil_iff]
  apply forall₂_congr
  intro folder _
  rw [wrongVerdicts, List.map_eq_nil_iff, List.filter_eq_nil_iff]
  simp

end Benchmark

end CnfSolver
