import CnfSolver.Proofs.NameTable.Reencoding
import CnfSolver.Proofs.Session.Batches

/-!
# Sessions written as text

The clauses of a session can be written as lines of text, and the lines give the session again. For
this only the clauses count that were taken over: neither the batches in which they came nor those
that were refused, and not whether they came as text, as integers or encoded.
-/

namespace CnfSolver.Session

variable {s s' : Session} {named : List (List (Except Error SignedName))}

/-- The signed names of the clauses that an action adds. Encoded clauses have those for which they
stand. -/
inductive Action.Names (files : Files) (t : NameTable) :
    Action → List (List (Except Error SignedName)) → Prop
  | text (lines : List String) : Names files t (.addText lines) (lines.map NameTable.lineNames)
  | integers {path : String} {integers : List (List Int)}
      (hload : (Dimacs.load files path).result = .ok integers) :
      Names files t (.addDimacs path)
        (integers.map fun clause => clause.map fun v => .ok (SignedName.numbered v))
  | encoded {clauses : List Clause} {named : List (List (Except Error SignedName))}
      (h : List.Forall₂ t.Decodes clauses named) : Names files t (.addClauses clauses) named

/-- Clauses of these signed names have been taken over, one after the other, and nothing else. -/
inductive Accepts : List (List (Except Error SignedName)) → Session → Prop
  | empty : Accepts [] .empty
  | taken {named batch : List (List (Except Error SignedName))} {s : Session} {reply : Reply}
      (h : Accepts named s) (files : Files) {action : Action} (hadding : action.IsAdding)
      (hok : (s.perform files action).2.result = .ok reply)
      (hbatch : action.Names files s.table batch) :
      Accepts (named ++ batch) (s.perform files action).1
  | refused {named : List (List (Except Error SignedName))} {s : Session} {e : Error}
      (h : Accepts named s) (files : Files) {action : Action} (hadding : action.IsAdding)
      (herror : (s.perform files action).2.result = .error e) :
      Accepts named (s.perform files action).1

/-! ## What a batch stands for -/

theorem Action.Names.decodes {files : Files} {t : NameTable} {action : Action}
    (h : action.Names files t named) (ht : t.IsConsistent) {clauses : List Clause}
    (hok : (action.encoded files t).2 = .ok clauses) :
    List.Forall₂ (action.encoded files t).1.Decodes clauses named := by
  cases h with
  | text lines => exact ht.decodes_encodeAll _ hok
  | integers hload =>
      simp only [Action.encoded, hload] at hok ⊢
      exact ht.decodes_encodeIntegers _ hok
  | encoded h =>
      obtain rfl := Except.ok.inj hok
      exact h

theorem Action.exists_names {files : Files} {t : NameTable} {action : Action}
    (hadding : action.IsAdding) {clauses : List Clause}
    (hok : (action.encoded files t).2 = .ok clauses)
    (hclauses : ∀ c ∈ clauses, c.WellFormed (action.encoded files t).1.size) :
    ∃ named, action.Names files t named := by
  cases action with
  | addText lines => exact ⟨_, .text lines⟩
  | addDimacs path =>
      cases hload : (Dimacs.load files path).result with
      | ok integers => exact ⟨_, .integers hload⟩
      | error e =>
          simp only [Action.encoded, hload] at hok
          cases hok
  | addClauses cs =>
      obtain rfl := Except.ok.inj hok
      obtain ⟨named, hnamed⟩ := NameTable.exists_decodes hclauses
      exact ⟨named, .encoded hnamed⟩
  | solve => exact hadding.elim
  | answer format check => exact hadding.elim
  | setStage stage => exact hadding.elim

theorem perform_eq_ok (files : Files) {action : Action} (hadding : action.IsAdding)
    {reply : Reply} (hok : (s.perform files action).2.result = .ok reply) :
    ∃ clauses, (action.encoded files s.table).2 = .ok clauses ∧
      (∀ c ∈ clauses, c.WellFormed (action.encoded files s.table).1.size) ∧
      (s.perform files action).1 =
        { s with table := (action.encoded files s.table).1, clauses := s.clauses ++ clauses } := by
  cases hstage : s.stage with
  | solved =>
      rw [perform_of_solved hstage files hadding] at hok
      exact nomatch hok
  | accepting =>
      obtain ⟨hsession, hresult⟩ := perform_of_accepting hstage files hadding
      rcases commitEncoded_cases s (action.encoded files s.table) with
        ⟨clauses, hencoded, hclauses, heq⟩ | ⟨e, heq⟩
      · refine ⟨clauses, hencoded, hclauses, ?_⟩
        rw [hsession, heq, hstage]
      · rw [hresult, heq] at hok
        exact nomatch hok

theorem Reaches.exists_accepts (h : Reaches Action.IsAdding .empty s) :
    ∃ named, Accepts named s := by
  induction h with
  | refl => exact ⟨[], .empty⟩
  | @perform s _ files action hadding ih =>
      obtain ⟨named, hs⟩ := ih
      cases hresult : (s.perform files action).2.result with
      | error e => exact ⟨named, hs.refused files hadding hresult⟩
      | ok reply =>
          obtain ⟨clauses, hencoded, hclauses, -⟩ := perform_eq_ok files hadding hresult
          obtain ⟨batch, hbatch⟩ := Action.exists_names hadding hencoded hclauses
          exact ⟨named ++ batch, hs.taken files hadding hresult hbatch⟩

/-! ## What a session records -/

/-- The session has taken over just these clauses, and what it says of names follows from their
list. -/
structure Records (s : Session) (named : List (List (Except Error SignedName))) : Prop where
  canonical : s.IsCanonical
  table_eq : s.table = NameTable.ofNames s.names
  decodes : List.Forall₂ s.table.Decodes s.clauses named
  unsolved : s.solution = none ∧ s.stage = .accepting

theorem records_empty : Records .empty [] where
  canonical := isCanonical_empty
  table_eq := rfl
  decodes := .nil
  unsolved := ⟨rfl, rfl⟩

theorem table_eq_encoded (h : s.table = NameTable.ofNames s.names) (files : Files)
    (action : Action) :
    (action.encoded files s.table).1 =
      NameTable.ofNames (action.encoded files s.table).1.names := by
  rcases action.encoded_cases files s.table with ⟨result, heq⟩ | ⟨clauses, -, heq⟩
  · rw [heq]
    exact h
  · rw [heq]
    apply NameTable.encodeAll_induct (P := fun t => t = NameTable.ofNames t.names) ?_ h
    intro t s _ ht
    exact NameTable.eq_ofNames_number ht s.name

theorem Records.perform {batch : List (List (Except Error SignedName))} (hs : s.Records named)
    (files : Files) {action : Action} (hadding : action.IsAdding) {reply : Reply}
    (hok : (s.perform files action).2.result = .ok reply)
    (hbatch : action.Names files s.table batch) :
    (s.perform files action).1.Records (named ++ batch) := by
  have hcanonical := hs.canonical.perform files action
  obtain ⟨clauses, hencoded, -, heq⟩ := perform_eq_ok files hadding hok
  rw [heq] at hcanonical ⊢
  have hgrown := action.names_prefix_encoded files s.table
  refine ⟨hcanonical, table_eq_encoded hs.table_eq files action, ?_, hs.unsolved⟩
  exact List.rel_append (hs.decodes.imp fun _ _ hclause => hclause.mono hgrown)
    (hbatch.decodes hs.canonical.consistent hencoded)

theorem Accepts.records (h : Accepts named s) : s.Records named := by
  induction h with
  | empty => exact records_empty
  | taken _ files hadding hok hbatch ih => exact ih.perform files hadding hok hbatch
  | refused _ files hadding herror ih =>
      rw [perform_eq_of_error hadding herror]
      exact ih

/-- The names of the clauses give the table and the clauses. -/
theorem Records.encodeAll_eq (hs : s.Records named) :
    NameTable.empty.encodeAll named = (s.table, .ok s.clauses) :=
  NameTable.encodeAll_of_decodes hs.canonical.consistent.nodup hs.table_eq hs.decodes
    hs.canonical.discovers

theorem Records.addNames_eq (hs : s.Records named) :
    Session.empty.addNames named = (s, .done ()) := by
  have hcheck : checkClauses s.table.size s.clauses = .ok () :=
    checkClauses_eq_ok.2 hs.canonical.wellFormed
  obtain ⟨hsolution, hstage⟩ := hs.unsolved
  have hcommit : Session.empty.commitEncoded (s.table, .ok s.clauses) = (s, .ok ()) := by
    rw [commitEncoded, commit, hcheck]
    show (Session.mk s.table ([] ++ s.clauses) none .accepting, _) = (s, _)
    rw [List.nil_append, ← hsolution, ← hstage]
  have hencode : Session.empty.table.encodeAll named = (s.table, .ok s.clauses) := hs.encodeAll_eq
  rw [addNames, whenAccepting_of_accepting rfl]
  simp only [hencode, hcommit]
  rfl

/-- After any history of added clauses, the clauses can be written as lines, and the lines are read
as the clauses that were taken over. Adding them to an empty session succeeds and gives the same
session, which is then solved alike, and so does every other history in which the same clauses are
taken over. -/
theorem export_of_reaches (h : Reaches Action.IsAdding .empty s) :
    ∃ named lines, Accepts named s ∧ (∀ s', Accepts named s' → s' = s) ∧
      s.clauses.mapM s.table.render? = some lines ∧ lines.map NameTable.lineNames = named ∧
      Session.empty.addText lines = (s, .done ()) := by
  obtain ⟨named, haccepts⟩ := h.exists_accepts
  have hs : s.Records named := haccepts.records
  obtain ⟨lines, hlines, hnamed⟩ := NameTable.exists_lines hs.canonical.proper hs.decodes
  refine ⟨named, lines, haccepts, ?_, hlines, hnamed, ?_⟩
  · intro s' haccepts'
    have heq := haccepts'.records.addNames_eq.symm.trans hs.addNames_eq
    exact congrArg Prod.fst heq
  · rw [addText, hnamed]
    exact hs.addNames_eq

/-- Each way of adding clauses is taken once and refused once, and text once more at the end. -/
theorem export_of_reaches_mixed :
    let files :=
      (FileTree.mk [(["f.cnf"], "2 -1 0 0".toUTF8), (["g.cnf"], "2 -1".toUTF8)] []).toFiles
    let s := empty.performAll files
      [.addText ["B ~A"], .addText ["C", "A~"], .addDimacs "f.cnf", .addDimacs "g.cnf",
        .addClauses [[⟨8⟩]], .addClauses [[⟨7⟩, ⟨0⟩]], .addText ["E  A", "\t~2 E "]]
    let lines := ["B ~A", "2 ~1", "~1 B", "E A", "~2 E"]
    s.names = ["B", "A", "2", "1", "E"] ∧ s.clauses.mapM s.table.render? = some lines ∧
      Session.empty.addText lines = (s, .done ()) := by
  intro files s lines
  have hreaches : Reaches Action.IsAdding .empty s :=
    Reaches.refl.performAll files (by decide)
  obtain ⟨-, lines', -, -, hlines', -, hread⟩ := export_of_reaches hreaches
  have hlines : s.clauses.mapM s.table.render? = some lines := by decide +kernel
  obtain rfl : lines' = lines := Option.some.inj (hlines'.symm.trans hlines)
  exact ⟨by decide +kernel, hlines, hread⟩

end CnfSolver.Session
