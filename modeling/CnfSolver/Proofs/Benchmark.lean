import CnfSolver.Benchmark
import CnfSolver.Proofs.Session.Files

/-!
# The faults of a benchmark

A benchmark goes through the folders of a directory in order, and through the files of each in
order. It has a fault if it comes to one of them that cannot be listed or is not taken, and the
first one counts. A fault is reported unless it is at a path that cannot be read for another reason.
-/

namespace CnfSolver.Benchmark

inductive Visits (root : String) : String → Prop
  | root : Visits root root
  | folder (folder : String) : Visits root (joinPath root folder)
  | file (folder name : String) : Visits root (joinPath (joinPath root folder) name)

/-- The directory and its folders can be listed, and the clauses of all their files are taken. -/
def TakesAll (files : Files) (root : String) : Prop :=
  ∃ listed, files.list root = .ok listed ∧ ∀ folder ∈ listed, expected? folder ≠ none →
    ∃ names, files.list (joinPath root folder) = .ok names ∧
      ∀ name ∈ names, isInstance name = true →
        files.Takes (joinPath (joinPath root folder) name)

def listed (files : Files) (path : String) : List String := (files.list path).toOption.getD []

def isFolder (name : String) : Bool := startsWith "uf" name || startsWith "uuf" name

def folders (files : Files) (root : String) : List String :=
  (sorted (listed files root)).filter isFolder

def instances (files : Files) (root folder : String) : List String :=
  sorted ((listed files (joinPath root folder)).filter isInstance)

def fileFault? (files : Files) (path : String) : Option Error :=
  match (Session.empty.addDimacs files path).2.result with
  | .ok _ => none
  | .error e => some e

/-- Why the folder cannot be listed, or else the first of its files that is not taken is not. -/
def folderFault? (files : Files) (root folder : String) : Option Error :=
  match files.list (joinPath root folder) with
  | .ok _ => (instances files root folder).findSome? fun name =>
      fileFault? files (joinPath (joinPath root folder) name)
  | .error e => some e

/-- Why the directory cannot be listed, or else the fault of the first of its folders that has
one. -/
def fault? (files : Files) (root : String) : Option Error :=
  match files.list root with
  | .ok _ => (folders files root).findSome? (folderFault? files root)
  | .error e => some e

variable {files : Files} {root folder path name : String} {names : List String} {e : Error}

/-! ## Names in order -/

theorem pairwise_sorted (names : List String) : (sorted names).Pairwise (· ≤ ·) := by
  have hpairwise : (sorted names).Pairwise fun a b => decide (a ≤ b) = true := by
    apply List.pairwise_mergeSort
    · simpa using fun a b c => String.le_trans
    · simpa using String.le_total
  exact hpairwise.imp of_decide_eq_true

theorem perm_sorted (names : List String) : (sorted names).Perm names := List.mergeSort_perm ..

/-- There is one way only to put names in order. -/
theorem sorted_eq {names : List String} (ordered : List String) (hperm : ordered.Perm names)
    (hordered : ordered.Pairwise (· ≤ ·)) : sorted names = ordered :=
  ((perm_sorted names).trans hperm.symm).eq_of_pairwise
    (fun _ _ _ _ hle hge => String.le_antisymm hle hge) (pairwise_sorted names) hordered

theorem listed_of_list (h : files.list path = .ok names) : listed files path = names := by
  rw [listed, h]
  rfl

theorem isFolder_iff : isFolder name = true ↔ expected? name ≠ none := by
  unfold isFolder expected?
  cases startsWith "uuf" name <;> cases startsWith "uf" name <;> simp

theorem mem_folders (h : files.list root = .ok names) :
    folder ∈ folders files root ↔ folder ∈ names ∧ expected? folder ≠ none := by
  rw [folders, listed_of_list h, List.mem_filter, (perm_sorted names).mem_iff, isFolder_iff]

theorem mem_instances (h : files.list (joinPath root folder) = .ok names) :
    name ∈ instances files root folder ↔ name ∈ names ∧ isInstance name = true := by
  rw [instances, listed_of_list h, (perm_sorted _).mem_iff, List.mem_filter]

/-! ## No fault -/

theorem fileFault?_eq_none_iff : fileFault? files path = none ↔ files.Takes path := by
  unfold fileFault? Files.Takes
  cases (Session.empty.addDimacs files path).2.result with
  | ok _ => exact ⟨fun _ => rfl, fun _ => rfl⟩
  | error e => exact ⟨fun h => (nomatch h), fun h => (nomatch h)⟩

theorem folderFault?_eq_none_iff :
    folderFault? files root folder = none ↔
      ∃ names, files.list (joinPath root folder) = .ok names ∧
        ∀ name ∈ names, isInstance name = true →
          files.Takes (joinPath (joinPath root folder) name) := by
  unfold folderFault?
  cases hlist : files.list (joinPath root folder) with
  | error e => simp
  | ok names =>
      simp only [List.findSome?_eq_none_iff, fileFault?_eq_none_iff, mem_instances hlist, and_imp,
        Except.ok.injEq, exists_eq_left']

theorem fault?_eq_none_iff : fault? files root = none ↔ TakesAll files root := by
  unfold fault? TakesAll
  cases hlist : files.list root with
  | error e => simp
  | ok names =>
      simp only [List.findSome?_eq_none_iff, folderFault?_eq_none_iff, mem_folders hlist, and_imp,
        Except.ok.injEq, exists_eq_left']

/-! ## Faults that are not reported -/

theorem result_of_fileFault? (h : fileFault? files path = some e) :
    (Session.empty.addDimacs files path).2.result = .error e := by
  unfold fileFault? at h
  split at h
  · exact nomatch h
  · next herror => rw [herror, Option.some.inj h]

variable {t : FileTree}

end CnfSolver.Benchmark
