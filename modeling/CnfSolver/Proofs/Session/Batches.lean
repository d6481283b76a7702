import CnfSolver.Proofs.Dimacs.Faults
import CnfSolver.Proofs.NameTable.Faults
import CnfSolver.Proofs.Session.Representation

/-!
# Batches that are rejected

A batch that fails leaves the session as it was. What it fails with is known beforehand: that the
session is solved counts before all else, then tokens that are no literals count before blank lines,
and encoded clauses count in their order. Text and files name the variables that they need, so no
batch of these has a literal off the variables.
-/

namespace CnfSolver.Session

variable {s : Session} {files : Files}

def emptyFault? (hasEmpty : Bool) : Option Error :=
  if hasEmpty then some (.emptyClause "cannot add an empty clause") else none

def literalFault? (n : Nat) (c : Clause) : Option Error :=
  (c.find? fun l => ¬Literal.InRange n l).map fun (l : Literal) => .literalRange l.code n

def clauseFault? (n : Nat) (c : Clause) : Option Error :=
  (emptyFault? c.isEmpty).or (literalFault? n c)

/-- What is wrong with lines of text: a token that is no literal, or else a blank line. -/
def textFault? (lines : List String) : Option Error :=
  (lines.findSome? NameTable.lineFault?).or
    (emptyFault? (lines.any fun line => line.toList.all Text.isBlank))

def verdict : Option Error → Except Error Unit
  | some e => .error e
  | none => .ok ()

/-! ## The check of encoded clauses -/

theorem checkLiterals_eq_verdict (n : Nat) (c : Clause) :
    checkLiterals n c = verdict (literalFault? n c) := by
  induction c with
  | nil => rfl
  | cons l ls ih =>
      have hstep : checkLiterals n (l :: ls) =
          if l.InRange n then checkLiterals n ls else .error (.literalRange l.code n) := rfl
      rw [hstep, literalFault?]
      by_cases hl : l.InRange n
      · rw [if_pos hl, List.find?_cons_of_neg (by simpa using hl), ih, literalFault?]
      · rw [if_neg hl, List.find?_cons_of_pos (by simpa using hl)]
        rfl

theorem checkClauses_eq_verdict (n : Nat) (cs : List Clause) :
    checkClauses n cs = verdict (cs.findSome? (clauseFault? n)) := by
  induction cs with
  | nil => rfl
  | cons c cs ih =>
      rw [checkClauses, List.findSome?_cons, clauseFault?, checkLiterals_eq_verdict]
      cases c.isEmpty with
      | true => rfl
      | false =>
          cases literalFault? n c with
          | some e => rfl
          | none => exact ih

theorem checkClauses_of_inRange {n : Nat} {cs : List Clause}
    (h : ∀ c ∈ cs, ∀ l ∈ c, l.InRange n) :
    checkClauses n cs = verdict (emptyFault? (cs.any List.isEmpty)) := by
  induction cs with
  | nil => rfl
  | cons c cs ih =>
      obtain ⟨hc, hcs⟩ := List.forall_mem_cons.1 h
      rw [checkClauses, List.any_cons]
      cases c.isEmpty with
      | true => rfl
      | false =>
          rw [checkLiterals_eq_ok.2 hc]
          exact ih hcs

/-! ## Clauses of names -/

theorem commitEncoded_encodeAll (ht : s.table.IsConsistent)
    (clauses : List (List (Except Error SignedName))) :
    (s.commitEncoded (s.table.encodeAll clauses)).2 =
      verdict ((clauses.findSome? NameTable.firstError?).or
        (emptyFault? (clauses.any List.isEmpty))) := by
  cases hfirst : clauses.findSome? NameTable.firstError? with
  | some e =>
      have herror := NameTable.encodeAll_of_error (t := s.table) hfirst
      cases hencode : s.table.encodeAll clauses with
      | mk table result =>
          rw [hencode] at herror
          obtain rfl : result = .error e := herror
          rfl
  | none =>
      obtain ⟨cs, hok, hempty⟩ := NameTable.encodeAll_of_no_error (t := s.table) hfirst
      -- the table grows with the names, so what it encodes is on its variables
      have hrange : ∀ c ∈ cs, ∀ l ∈ c, l.InRange (s.table.encodeAll clauses).1.size :=
        inRange_iff_variablesOf.2 (ht.discovers_encodeAll clauses hok).bounds
      cases hencode : s.table.encodeAll clauses with
      | mk table result =>
          rw [hencode] at hok hrange
          obtain rfl : result = .ok cs := hok
          have hcheck := checkClauses_of_inRange hrange
          rw [hempty] at hcheck
          rw [Option.none_or, ← hcheck, commitEncoded, commit]
          cases checkClauses table.size cs with
          | error e => rfl
          | ok _ => rfl

theorem findSome?_lineNames (lines : List String) :
    ((lines.map NameTable.lineNames).findSome? NameTable.firstError?).or
      (emptyFault? ((lines.map NameTable.lineNames).any List.isEmpty)) = textFault? lines := by
  rw [List.findSome?_map, List.any_map]
  simp only [Function.comp_def, NameTable.firstError?_lineNames, NameTable.isEmpty_lineNames]
  rfl

theorem addText_of_accepting (haccepting : s.stage = .accepting) (ht : s.table.IsConsistent)
    (lines : List String) : (s.addText lines).2.result = verdict (textFault? lines) := by
  rw [addText, addNames, whenAccepting_of_accepting haccepting, ← findSome?_lineNames,
    ← commitEncoded_encodeAll ht]
  rfl

theorem addClauses_of_accepting (haccepting : s.stage = .accepting) (clauses : List Clause) :
    (s.addClauses clauses).2.result =
      verdict (clauses.findSome? (clauseFault? s.names.length)) := by
  rw [addClauses, whenAccepting_of_accepting haccepting, ← checkClauses_eq_verdict]
  change (s.commit s.table clauses).2 = checkClauses s.table.size clauses
  rw [commit]
  cases checkClauses s.table.size clauses with
  | error e => rfl
  | ok _ => rfl

/-! ## What text and files fail with -/

theorem eq_of_verdict {fault? : Option Error} {e : Error} (h : verdict fault? = .error e) :
    fault? = some e := by
  cases fault? with
  | none => exact nomatch h
  | some e' => rw [Except.error.inj h]

theorem category_of_emptyFault? {hasEmpty : Bool} {e : Error}
    (h : emptyFault? hasEmpty = some e) : e.category = some .value := by
  obtain ⟨-, heq⟩ := Option.ite_none_right_eq_some.1 h
  rw [← Option.some.inj heq]
  rfl

theorem category_of_textFault? {lines : List String} {e : Error}
    (h : textFault? lines = some e) : e.category = some .value := by
  rcases Option.or_eq_some_iff.1 h with hline | ⟨-, hblank⟩
  · obtain ⟨line, -, hfault⟩ := List.exists_of_findSome?_eq_some hline
    obtain ⟨token, -, rfl⟩ := Option.map_eq_some_iff.1 hfault
    rfl
  · exact category_of_emptyFault? hblank

theorem category_of_firstError? {clauses : List (List Int)} {e : Error}
    (h : (clauses.map fun clause => clause.map SignedName.ofInteger).findSome?
      NameTable.firstError? = some e) : e.category = none := by
  obtain ⟨names, hnames, hfirst⟩ := List.exists_of_findSome?_eq_some h
  obtain ⟨clause, -, rfl⟩ := List.mem_map.1 hnames
  obtain ⟨v, -, hv⟩ := List.mem_map.1 (NameTable.mem_of_firstError? hfirst)
  rw [SignedName.eq_numeralTooLong_of_ofInteger hv]
  rfl

theorem category_of_addDimacs (haccepting : s.stage = .accepting) (ht : s.table.IsConsistent)
    (hfiles : files.IsPlain) {path : String} {e : Error}
    (h : (s.addDimacs files path).2.result = .error e) :
    e.category = none ∨ e.category = some .value := by
  rw [addDimacs, whenAccepting_of_accepting haccepting] at h
  simp only at h
  cases hload : (Dimacs.load files path).result with
  | error e' =>
      rw [hload] at h
      obtain rfl := Except.error.inj h
      exact Dimacs.category_of_load hfiles hload
  | ok clauses =>
      rw [hload] at h
      have hverdict := (commitEncoded_encodeAll ht _).symm.trans h
      rcases Option.or_eq_some_iff.1 (eq_of_verdict hverdict) with hfirst | ⟨-, hempty⟩
      · exact .inl (category_of_firstError? hfirst)
      · exact .inr (category_of_emptyFault? hempty)

theorem category_of_addText (haccepting : s.stage = .accepting) (ht : s.table.IsConsistent)
    {lines : List String} {e : Error} (h : (s.addText lines).2.result = .error e) :
    e.category = some .value := by
  rw [addText_of_accepting haccepting ht] at h
  exact category_of_textFault? (eq_of_verdict h)

theorem category_of_addClauses (haccepting : s.stage = .accepting) {clauses : List Clause}
    {e : Error} (h : (s.addClauses clauses).2.result = .error e) :
    e.category = some .value ∨ e.category = some .index := by
  rw [addClauses_of_accepting haccepting] at h
  obtain ⟨c, -, hfault⟩ := List.exists_of_findSome?_eq_some (eq_of_verdict h)
  rcases Option.or_eq_some_iff.1 hfault with hempty | ⟨-, hliteral⟩
  · exact .inl (category_of_emptyFault? hempty)
  · obtain ⟨l, -, rfl⟩ := Option.map_eq_some_iff.1 hliteral
    exact .inr rfl

/-! ## Batches and stages -/

theorem category_of_perform (haccepting : s.stage = .accepting) (ht : s.table.IsConsistent)
    (hfiles : files.IsPlain) {action : Action} {e : Error} (hadding : action.IsAdding)
    (h : (s.perform files action).2.result = .error e) : e.category ≠ some .state := by
  cases action with
  | addText lines =>
      have herror := Transcript.result_bind_done_eq_error.1 h
      have hcategory := category_of_addText haccepting ht herror
      simp [hcategory]
  | addDimacs path =>
      have herror := Transcript.result_bind_done_eq_error.1 h
      have hcategory := category_of_addDimacs haccepting ht hfiles herror
      rcases hcategory with hcategory | hcategory <;> simp [hcategory]
  | addClauses clauses =>
      have herror := Transcript.result_bind_done_eq_error.1 h
      have hcategory := category_of_addClauses haccepting herror
      rcases hcategory with hcategory | hcategory <;> simp [hcategory]
  | solve => exact hadding.elim
  | answer format check => exact hadding.elim
  | setStage stage => exact hadding.elim

theorem error_solved_iff (ht : s.table.IsConsistent) (hfiles : files.IsPlain) {action : Action}
    (hadding : action.IsAdding) :
    (∃ text, (s.perform files action).2.result = .error (.solved text)) ↔ s.stage = .solved := by
  constructor
  · rintro ⟨text, h⟩
    cases hstage : s.stage with
    | solved => rfl
    | accepting => exact absurd rfl (category_of_perform hstage ht hfiles hadding h)
  · intro hstage
    rw [perform_of_solved hstage files hadding]
    exact ⟨_, rfl⟩

/-- A batch that fails changes nothing. -/
theorem perform_eq_of_error {action : Action} {e : Error} (hadding : action.IsAdding)
    (h : (s.perform files action).2.result = .error e) : (s.perform files action).1 = s := by
  cases hstage : s.stage with
  | solved => rw [perform_of_solved hstage files hadding]
  | accepting =>
      obtain ⟨hsession, hresult⟩ := perform_of_accepting hstage files hadding
      rcases commitEncoded_cases s (action.encoded files s.table) with
        ⟨clauses, -, -, heq⟩ | ⟨e', heq⟩
      · rw [hresult, heq] at h
        exact nomatch h
      · rw [hsession, heq]

theorem addText_ne_literalRange (ht : s.table.IsConsistent) (lines : List String)
    (literal count : Int) : (s.addText lines).2.result ≠ .error (.literalRange literal count) := by
  intro h
  cases hstage : s.stage with
  | solved =>
      rw [addText, addNames, whenAccepting_of_solved hstage] at h
      exact absurd h (by simp [Transcript.fail])
  | accepting =>
      have hcategory := category_of_addText hstage ht h
      simp [Error.category] at hcategory

theorem addDimacs_ne_literalRange (ht : s.table.IsConsistent) (hfiles : files.IsPlain)
    (path : String) (literal count : Int) :
    (s.addDimacs files path).2.result ≠ .error (.literalRange literal count) := by
  intro h
  cases hstage : s.stage with
  | solved =>
      rw [addDimacs, whenAccepting_of_solved hstage] at h
      exact absurd h (by simp [Transcript.fail])
  | accepting =>
      have hcategory := category_of_addDimacs hstage ht hfiles h
      simp [Error.category] at hcategory

/-! ## Histories -/

/-- After every history, a batch that fails changes nothing. It fails for the stage just when the
session is solved, and then whatever it and the files are. If not, text and encoded clauses fail
with their first fault, and text and files never with a literal off the variables. -/
theorem batch_of_reaches (h : Reaches (fun _ => True) .empty s) :
    (∀ files action e, action.IsAdding → (s.perform files action).2.result = .error e →
      (s.perform files action).1 = s) ∧
    (s.stage = .solved → ∀ files action, action.IsAdding → s.perform files action =
      (s, .fail (.solved "Solution found: cannot add new clauses."))) ∧
    (∀ files action, files.IsPlain → action.IsAdding →
      ((∃ text, (s.perform files action).2.result = .error (.solved text)) ↔
        s.stage = .solved)) ∧
    (s.stage = .accepting →
      (∀ lines, (s.addText lines).2.result = verdict (textFault? lines)) ∧
      ∀ clauses, (s.addClauses clauses).2.result =
        verdict (clauses.findSome? (clauseFault? s.names.length))) ∧
    (∀ lines literal count,
      (s.addText lines).2.result ≠ .error (.literalRange literal count)) ∧
    ∀ files path literal count, files.IsPlain →
      (s.addDimacs files path).2.result ≠ .error (.literalRange literal count) := by
  have hs : s.IsCanonical := h.isCanonical isCanonical_empty
  have ht := hs.consistent
  refine ⟨?_, ?_, ?_, ?_, ?_, ?_⟩
  · intro files action e hadding herror
    exact perform_eq_of_error hadding herror
  · intro hsolved files action hadding
    exact perform_of_solved hsolved files hadding
  · intro files action hfiles hadding
    exact error_solved_iff ht hfiles hadding
  · intro haccepting
    exact ⟨addText_of_accepting haccepting ht, addClauses_of_accepting haccepting⟩
  · intro lines literal count
    exact addText_ne_literalRange ht lines literal count
  · intro files path literal count hfiles
    exact addDimacs_ne_literalRange ht hfiles path literal count

/-- Each kind of batch fails, in a session that is solved and opened again: text with a blank line
before its bad tokens, a file with an empty clause, and encoded clauses. -/
theorem batch_of_reaches_failing :
    let files := (FileTree.mk [(["f.cnf"], "3 0 0".toUTF8)] []).toFiles
    let s := empty.performAll files [.addText ["A ~B"], .solve, .setStage .accepting]
    (s.addText ["", "C A", "C ~ D~"]).2.result = .error (.badLiteral "~" "C ~ D~") ∧
      (s.addClauses [[⟨3⟩], [⟨0⟩, ⟨4⟩, ⟨-1⟩], []]).2.result = .error (.literalRange 4 2) ∧
      (s.perform files (.addDimacs "f.cnf")).1 = s ∧
      ¬∃ text, (s.perform files (.addDimacs "g.cnf")).2.result = .error (.solved text) := by
  intro files s
  have hreaches : Reaches (fun _ => True) .empty s :=
    Reaches.refl.performAll files fun _ _ => trivial
  have haccepting : s.stage = .accepting := by decide +kernel
  have hfile : (s.perform files (.addDimacs "f.cnf")).2.result =
      .error (.emptyClause "cannot add an empty clause") := by decide +kernel
  obtain ⟨hkept, -, hsolved, hfault, -, -⟩ := batch_of_reaches hreaches
  obtain ⟨htext, hclauses⟩ := hfault haccepting
  refine ⟨?_, ?_, ?_, ?_⟩
  · rw [htext]
    decide +kernel
  · rw [hclauses]
    decide +kernel
  · exact hkept files _ _ trivial hfile
  · rw [hsolved files (.addDimacs "g.cnf") (FileTree.isPlain_toFiles _) trivial, haccepting]
    decide

end CnfSolver.Session
