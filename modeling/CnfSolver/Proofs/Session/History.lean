import CnfSolver.Proofs.NameTable.Growth
import CnfSolver.Proofs.NameTable.Tokens
import CnfSolver.Proofs.Search.FirstModel
import CnfSolver.Proofs.Transcript
import CnfSolver.Session

/-!
# Histories of a session

What adding clauses can do to a session, be it text, a file or encoded clauses, and what holds of a
session after every history in which the stage is not set by hand: its clauses are on its variables,
and a solution that it has is that of its clauses.
-/

namespace CnfSolver.Session

def Action.IsAdding : Action → Prop
  | .addText _ | .addDimacs _ | .addClauses _ => True
  | .solve | .answer .. | .setStage _ => False

def Action.IsOrdinary : Action → Prop
  | .setStage _ => False
  | _ => True

instance : DecidablePred Action.IsAdding := fun action => by
  cases action <;> simp only [Action.IsAdding] <;> infer_instance

instance : DecidablePred Action.IsOrdinary := fun action => by
  cases action <;> simp only [Action.IsOrdinary] <;> infer_instance

/-- Some allowed actions, accepted or not, lead from one session to the other. The files may change
between two actions. -/
inductive Reaches (allowed : Action → Prop) (s₀ : Session) : Session → Prop
  | refl : Reaches allowed s₀ s₀
  | perform {s : Session} (h : Reaches allowed s₀ s) (files : Files) (action : Action)
      (hallowed : allowed action) : Reaches allowed s₀ (s.perform files action).1

theorem Reaches.performAll {allowed : Action → Prop} {s₀ s : Session} (h : Reaches allowed s₀ s)
    (files : Files) {actions : List Action} (hallowed : ∀ action ∈ actions, allowed action) :
    Reaches allowed s₀ (s.performAll files actions) := by
  induction actions generalizing s with
  | nil => exact h
  | cons action actions ih =>
      obtain ⟨hfirst, hrest⟩ := List.forall_mem_cons.1 hallowed
      exact ih (h.perform files action hfirst) hrest

inductive Adds (s : Session) : Session → Prop
  | nothing : Adds s s
  | batch {table : NameTable} {clauses : List Clause} (haccepting : s.stage = .accepting)
      (hnames : s.names <+: table.names) (hclauses : ∀ c ∈ clauses, c.WellFormed table.size) :
      Adds s { s with table, clauses := s.clauses ++ clauses }

/-! ## Adding clauses -/

theorem checkLiterals_eq_ok {n : Nat} {c : Clause} :
    checkLiterals n c = .ok () ↔ ∀ l ∈ c, l.InRange n := by
  induction c with
  | nil => simp [checkLiterals]
  | cons l ls ih =>
      rw [checkLiterals, List.forall_mem_cons]
      by_cases hl : 0 ≤ l.code ∧ l.code < 2 * n
      · rw [if_pos hl, ih]
        exact (and_iff_right hl).symm
      · rw [if_neg hl]
        exact ⟨fun h => (nomatch h), fun h => absurd h.1 hl⟩

theorem checkClauses_eq_ok {n : Nat} {cs : List Clause} :
    checkClauses n cs = .ok () ↔ ∀ c ∈ cs, c.WellFormed n := by
  induction cs with
  | nil => simp [checkClauses]
  | cons c cs ih =>
      rw [checkClauses, List.forall_mem_cons]
      by_cases hc : c.isEmpty
      · rw [if_pos hc]
        refine ⟨fun h => (nomatch h), fun h => absurd ?_ h.1.ne_nil⟩
        exact List.isEmpty_iff.1 hc
      · rw [if_neg hc]
        have hne : c ≠ [] := fun h => hc (List.isEmpty_iff.2 h)
        cases hliterals : checkLiterals n c with
        | ok _ =>
            have hrange := checkLiterals_eq_ok.1 hliterals
            simp only [ih]
            exact (and_iff_right ⟨hne, hrange⟩).symm
        | error e =>
            refine ⟨fun h => (nomatch h), fun h => ?_⟩
            rw [checkLiterals_eq_ok.2 h.1.inRange] at hliterals
            exact nomatch hliterals

variable {s : Session}

/-! ## Batches of clauses -/

/-- The clauses that an action adds, encoded but not checked. Some actions add none. -/
def Action.encoded (files : Files) (t : NameTable) :
    Action → NameTable × Except Error (List Clause)
  | .addText lines => t.encodeAll (lines.map NameTable.lineNames)
  | .addDimacs path =>
      match (Dimacs.load files path).result with
      | .error e => (t, .error e)
      | .ok clauses => t.encodeIntegers clauses
  | .addClauses clauses => (t, .ok clauses)
  | .solve | .answer .. | .setStage _ => (t, .ok [])

/-- A batch leaves the table as it is, or it is encoded from names that are all proper. -/
theorem Action.encoded_cases (files : Files) (t : NameTable) (action : Action) :
    (∃ result, action.encoded files t = (t, result)) ∨
    ∃ clauses, (∀ names ∈ clauses, ∀ s, .ok s ∈ names → SignedName.IsProper s.name) ∧
      action.encoded files t = t.encodeAll clauses := by
  cases action with
  | addText lines =>
      refine .inr ⟨lines.map NameTable.lineNames, ?_, rfl⟩
      intro names hnames s hs
      obtain ⟨line, -, rfl⟩ := List.mem_map.1 hnames
      exact SignedName.isProper_of_mem_lineNames hs
  | addDimacs path =>
      simp only [encoded]
      split
      · exact .inl ⟨_, rfl⟩
      · next clauses _ =>
        refine .inr ⟨clauses.map fun clause => clause.map SignedName.ofInteger, ?_, rfl⟩
        intro names hnames s hs
        obtain ⟨clause, -, rfl⟩ := List.mem_map.1 hnames
        obtain ⟨v, -, hv⟩ := List.mem_map.1 hs
        exact SignedName.isProper_of_ofInteger hv
  | addClauses clauses => exact .inl ⟨_, rfl⟩
  | solve => exact .inl ⟨_, rfl⟩
  | answer format check => exact .inl ⟨_, rfl⟩
  | setStage stage => exact .inl ⟨_, rfl⟩

theorem Action.names_prefix_encoded (files : Files) (t : NameTable) (action : Action) :
    t.names <+: (action.encoded files t).1.names := by
  rcases action.encoded_cases files t with ⟨result, heq⟩ | ⟨clauses, -, heq⟩
  · rw [heq]
  · rw [heq]
    exact NameTable.names_prefix_encodeAll t clauses

/-! ## Adding clauses -/

theorem whenAccepting_of_accepting (haccepting : s.stage = .accepting)
    (add : Unit → Session × Transcript Unit) : s.whenAccepting add = add () := by
  rw [whenAccepting, haccepting]

theorem whenAccepting_of_solved (hsolved : s.stage = .solved)
    (add : Unit → Session × Transcript Unit) :
    s.whenAccepting add = (s, .fail (.solved "Solution found: cannot add new clauses.")) := by
  rw [whenAccepting, hsolved]

theorem perform_of_solved (hsolved : s.stage = .solved) (files : Files) {action : Action}
    (h : action.IsAdding) :
    s.perform files action = (s, .fail (.solved "Solution found: cannot add new clauses.")) := by
  cases action with
  | addText lines =>
      simp only [perform, addText, addNames, whenAccepting_of_solved hsolved]
      rfl
  | addDimacs path =>
      simp only [perform, addDimacs, whenAccepting_of_solved hsolved]
      rfl
  | addClauses clauses =>
      simp only [perform, addClauses, whenAccepting_of_solved hsolved]
      rfl
  | solve => exact h.elim
  | answer format check => exact h.elim
  | setStage stage => exact h.elim

theorem perform_of_accepting (haccepting : s.stage = .accepting) (files : Files)
    {action : Action} (h : action.IsAdding) :
    (s.perform files action).1 = (s.commitEncoded (action.encoded files s.table)).1 ∧
    (s.perform files action).2.result =
      (s.commitEncoded (action.encoded files s.table)).2.map fun _ => .none := by
  cases action with
  | addText lines =>
      simp only [perform, addText, addNames, whenAccepting_of_accepting haccepting]
      exact ⟨rfl, Transcript.result_bind_done _ _⟩
  | addDimacs path =>
      simp only [perform, addDimacs, whenAccepting_of_accepting haccepting, Action.encoded]
      cases (Dimacs.load files path).result with
      | error e => exact ⟨rfl, Transcript.result_bind_done _ _⟩
      | ok clauses => exact ⟨rfl, Transcript.result_bind_done _ _⟩
  | addClauses clauses =>
      simp only [perform, addClauses, whenAccepting_of_accepting haccepting]
      exact ⟨rfl, Transcript.result_bind_done _ _⟩
  | solve => exact h.elim
  | answer format check => exact h.elim
  | setStage stage => exact h.elim

/-- A batch is taken over as a whole, its clauses being in order, or the session stays as it is and
the error is given. -/
theorem commitEncoded_cases (s : Session) (encoded : NameTable × Except Error (List Clause)) :
    (∃ clauses, encoded.2 = .ok clauses ∧ (∀ c ∈ clauses, c.WellFormed encoded.1.size) ∧
      s.commitEncoded encoded =
        ({ s with table := encoded.1, clauses := s.clauses ++ clauses }, .ok ())) ∨
    ∃ e, s.commitEncoded encoded = (s, .error e) := by
  obtain ⟨table, result⟩ := encoded
  cases result with
  | error e => exact .inr ⟨e, rfl⟩
  | ok clauses =>
      cases hcheck : checkClauses table.size clauses with
      | error e => exact .inr ⟨e, by rw [commitEncoded, commit, hcheck]⟩
      | ok _ =>
          refine .inl ⟨clauses, rfl, checkClauses_eq_ok.1 hcheck, ?_⟩
          rw [commitEncoded, commit, hcheck]

theorem adds_perform (s : Session) (files : Files) {action : Action} (h : action.IsAdding) :
    s.Adds (s.perform files action).1 := by
  cases hstage : s.stage with
  | solved =>
      rw [perform_of_solved hstage files h]
      exact .nothing
  | accepting =>
      rw [(perform_of_accepting hstage files h).1]
      rcases commitEncoded_cases s (action.encoded files s.table) with
        ⟨clauses, -, hclauses, heq⟩ | ⟨e, heq⟩
      · rw [heq]
        exact .batch hstage (action.names_prefix_encoded files s.table) hclauses
      · rw [heq]
        exact .nothing

end CnfSolver.Session
