import CnfSolver.Proofs.NameTable.Discovery
import CnfSolver.Proofs.Session.History

/-!
# The names and clauses of a session

The table of a session is consistent, its names could stand in a line of text, and its clauses
are on its variables. The variables are numbered in the order in which they come up in the clauses,
so nothing that a rejected batch numbered stays behind. Batches keep this however they are written,
and it does not matter whether the stage is set by hand, since it is about the table and the
clauses only.
-/

namespace CnfSolver.Session

open SignedName (IsProper)

structure IsCanonical (s : Session) : Prop where
  consistent : s.table.IsConsistent
  proper : ∀ name ∈ s.names, IsProper name
  wellFormed : ∀ c ∈ s.clauses, c.WellFormed s.names.length
  discovers : Discovers 0 (variablesOf s.clauses) s.names.length

variable {s s' : Session}

theorem isCanonical_empty : IsCanonical .empty where
  consistent := NameTable.isConsistent_empty
  proper _ h := absurd h List.not_mem_nil
  wellFormed _ h := absurd h List.not_mem_nil
  discovers := .nil 0

theorem IsCanonical.congr (hs : s.IsCanonical) (htable : s'.table = s.table)
    (hclauses : s'.clauses = s.clauses) : s'.IsCanonical := by
  have hnames : s'.names = s.names := congrArg NameTable.names htable
  refine ⟨?_, ?_, ?_, ?_⟩
  · rw [htable]
    exact hs.consistent
  · rw [hnames]
    exact hs.proper
  · rw [hnames, hclauses]
    exact hs.wellFormed
  · rw [hnames, hclauses]
    exact hs.discovers

/-! ## Batches -/

theorem proper_encodeAll {t : NameTable} {clauses : List (List (Except Error SignedName))}
    (ht : ∀ name ∈ t.names, IsProper name)
    (hclauses : ∀ names ∈ clauses, ∀ s, .ok s ∈ names → IsProper s.name) :
    ∀ name ∈ (t.encodeAll clauses).1.names, IsProper name := by
  refine NameTable.encodeAll_induct (P := fun t => ∀ name ∈ t.names, IsProper name) ?_ ht
  rintro t s ⟨names, hnames, hs⟩ ht
  rcases NameTable.number_cases t s.name with ⟨i, -, heq⟩ | ⟨-, heq⟩
  · rw [heq]
    exact ht
  · rw [heq]
    simp only [List.forall_mem_append, List.forall_mem_singleton]
    exact ⟨ht, hclauses names hnames s hs⟩

theorem IsCanonical.consistent_encoded (hs : s.IsCanonical) (files : Files) (action : Action) :
    (action.encoded files s.table).1.IsConsistent := by
  rcases action.encoded_cases files s.table with ⟨result, heq⟩ | ⟨clauses, -, heq⟩
  · rw [heq]
    exact hs.consistent
  · rw [heq]
    exact hs.consistent.encodeAll clauses

theorem IsCanonical.proper_encoded (hs : s.IsCanonical) (files : Files) (action : Action) :
    ∀ name ∈ (action.encoded files s.table).1.names, IsProper name := by
  rcases action.encoded_cases files s.table with ⟨result, heq⟩ | ⟨clauses, hproper, heq⟩
  · rw [heq]
    exact hs.proper
  · rw [heq]
    exact proper_encodeAll hs.proper hproper

theorem IsCanonical.discovers_encoded (hs : s.IsCanonical) {files : Files} {action : Action}
    {clauses : List Clause} (hok : (action.encoded files s.table).2 = .ok clauses)
    (hclauses : ∀ c ∈ clauses, c.WellFormed (action.encoded files s.table).1.size) :
    Discovers s.table.size (variablesOf clauses) (action.encoded files s.table).1.size := by
  rcases action.encoded_cases files s.table with ⟨result, heq⟩ | ⟨named, -, heq⟩
  · rw [heq] at hclauses ⊢
    -- clauses that are encoded already have no new variables, or they would be off the variables
    apply Discovers.of_bounds
    exact inRange_iff_variablesOf.1 fun c hc => (hclauses c hc).inRange
  · rw [heq] at hok ⊢
    exact hs.consistent.discovers_encodeAll named hok

theorem IsCanonical.commitEncoded (hs : s.IsCanonical) (files : Files) (action : Action) :
    (s.commitEncoded (action.encoded files s.table)).1.IsCanonical := by
  rcases commitEncoded_cases s (action.encoded files s.table) with
    ⟨clauses, hok, hclauses, heq⟩ | ⟨e, heq⟩
  · rw [heq]
    have hdiscovers := hs.discovers_encoded hok hclauses
    refine ⟨hs.consistent_encoded files action, hs.proper_encoded files action, ?_, ?_⟩
    · intro c hc
      rcases List.mem_append.1 hc with hc | hc
      · exact (hs.wellFormed c hc).mono hdiscovers.le
      · exact hclauses c hc
    · simp only [variablesOf_append]
      exact hs.discovers.append hdiscovers
  · rw [heq]
    exact hs

/-! ## Histories -/

theorem table_clauses_solve (s : Session) :
    s.solve.1.table = s.table ∧ s.solve.1.clauses = s.clauses := by
  unfold solve
  split
  · exact ⟨rfl, rfl⟩
  · simp only
    split
    · exact ⟨rfl, rfl⟩
    · exact ⟨rfl, rfl⟩

theorem IsCanonical.perform (hs : s.IsCanonical) (files : Files) (action : Action) :
    (s.perform files action).1.IsCanonical := by
  by_cases hadding : action.IsAdding
  · cases hstage : s.stage with
    | solved =>
        rw [perform_of_solved hstage files hadding]
        exact hs
    | accepting =>
        rw [(perform_of_accepting hstage files hadding).1]
        exact hs.commitEncoded files action
  · cases action with
    | solve | answer =>
        obtain ⟨htable, hclauses⟩ := table_clauses_solve s
        exact hs.congr htable hclauses
    | setStage stage => exact hs.congr rfl rfl
    | _ => exact absurd trivial hadding

theorem Reaches.isCanonical {allowed : Action → Prop} (hs : s.IsCanonical)
    (h : Reaches allowed s s') : s'.IsCanonical := by
  induction h with
  | refl => exact hs
  | perform _ files action _ ih => exact ih.perform files action

/-- After every history, the names are distinct and proper and the look-up is the inverse of their
list; no clause is empty or off the variables; and the first occurrences of variables in the clauses
are all the variables in order. -/
theorem canonical_of_reaches (h : Reaches (fun _ => True) .empty s) :
    s.names.Nodup ∧
    (∀ name ∈ s.names, IsProper name) ∧
    (∀ name i, s.table.find? name = some i ↔ s.names[i]? = some name) ∧
    (∀ c ∈ s.clauses, c ≠ [] ∧ ∀ l ∈ c, 0 ≤ l.code ∧ l.code < 2 * s.names.length) ∧
    (variablesOf s.clauses).eraseDups =
      (List.range s.names.length).map fun (v : Nat) => (v : Int) := by
  have hs : s.IsCanonical := h.isCanonical isCanonical_empty
  refine ⟨hs.consistent.nodup, hs.proper, hs.consistent, ?_, hs.discovers.eraseDups_eq⟩
  intro c hc
  exact ⟨(hs.wellFormed c hc).ne_nil, (hs.wellFormed c hc).inRange⟩

/-- Of each kind of batch one is rejected, and the session is opened again after it is solved. -/
theorem canonical_of_reaches_after_rejections :
    let files :=
      (FileTree.mk [(["f.cnf"], "2 -1 0 0".toUTF8), (["g.cnf"], "2 -1".toUTF8)] []).toFiles
    let s := empty.performAll files
      [.addText ["B ~A"], .addText ["C", "A~"], .addDimacs "f.cnf", .addDimacs "g.cnf",
        .addClauses [[⟨7⟩]], .addClauses [[⟨8⟩]], .solve, .addText ["D"], .setStage .accepting,
        .addText ["E A"]]
    s.names = ["B", "A", "2", "1", "E"] ∧ variablesOf s.clauses = [0, 1, 2, 3, 3, 4, 1] ∧
      (variablesOf s.clauses).eraseDups =
        (List.range s.names.length).map fun (v : Nat) => (v : Int) := by
  intro files s
  have hreaches : Reaches (fun _ => True) .empty s :=
    Reaches.refl.performAll files fun _ _ => trivial
  obtain ⟨-, -, -, -, hfirst⟩ := canonical_of_reaches hreaches
  exact ⟨by decide +kernel, by decide +kernel, hfirst⟩

end CnfSolver.Session
