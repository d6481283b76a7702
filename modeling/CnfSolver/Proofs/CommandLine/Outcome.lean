import CnfSolver.CommandLine
import CnfSolver.Proofs.Session.Formula
import CnfSolver.Proofs.Solution.Line
import CnfSolver.Proofs.Transcript

/-!
# Answers and exit statuses

What answers a formula is one line, and the exit status tells which kind of answer it is. A run with
a log level that is known prints what it prints without a log, and what stops it is the status 2 if
it is reported.
-/

namespace CnfSolver

/-- The text that answers a formula, and its status: values of the names that make the formula true,
or that there are none. -/
inductive Formula.Answers (f : Formula) (format : Format) : String → Nat → Prop
  | model {value : String → Bool} (h : f.Holds value) :
      Answers f format (format.line (f.names.map fun name => (name, value name))) 0
  | unsatisfiable (h : ¬f.IsSatisfiable) : Answers f format "UNSAT" 1

namespace Formula.Answers

variable {f : Formula} {format : Format} {text : String} {status : Nat}

theorem status_eq_zero_iff (h : f.Answers format text status) : status = 0 ↔ f.IsSatisfiable := by
  cases h with
  | model h => exact ⟨fun _ => ⟨_, h⟩, fun _ => rfl⟩
  | unsatisfiable h => exact ⟨fun hzero => (nomatch hzero), fun hsat => absurd hsat h⟩

theorem status_le_one (h : f.Answers format text status) : status ≤ 1 := by
  cases h with
  | model => exact Nat.zero_le 1
  | unsatisfiable => exact Nat.le_refl 1

theorem isUnbroken (h : f.Answers format text status)
    (hproper : ∀ clause ∈ f, ∀ s ∈ clause, SignedName.IsProper s.name) :
    Text.IsUnbroken text.toList := by
  cases h with
  | unsatisfiable => decide
  | model =>
      apply format.isUnbroken_line
      intro entry hentry
      obtain ⟨name, hname, rfl⟩ := List.mem_map.1 hentry
      obtain ⟨clause, hclause, s, hs, rfl⟩ := Formula.mem_names hname
      exact hproper clause hclause s hs

end Formula.Answers

/-- A session that stands for a formula prints its answer, be it checked or not. -/
theorem Session.Represents.answers {s : Session} {f : Formula} (h : s.Represents f)
    (format : Format) (check : Bool) :
    ∃ text status, f.Answers format text status ∧
      (s.answer format check).2.output = [.line text] ∧
      (s.answer format check).2.result = .ok status := by
  obtain ⟨solution, hdecides, houtput, hresult⟩ := h.answer format check
  refine ⟨_, _, ?_, houtput, hresult⟩
  cases hdecides with
  | unsatisfiable hno => exact .unsatisfiable hno
  | model hholds =>
      have hnodup : f.names.Nodup := h.names_eq ▸ h.nodup
      have hanswer : f.Answers format _ 0 := .model hholds
      rw [← Solution.render_valuesOf hnodup] at hanswer
      exact hanswer

namespace CommandLine

def Outcome.printed (outcome : Outcome) (seconds : String → String × String) : String :=
  String.join (outcome.output.map (Piece.render seconds))

def exitStatus : Except Error Nat → Except Error Nat
  | .ok status => .ok status
  | .error e => if e.isReported then .ok 2 else .error e

theorem output_reporting (t : Transcript Nat) : (reporting t).output = t.output := by
  unfold reporting
  split
  · rfl
  · split <;> rfl

theorem result_reporting (t : Transcript Nat) : (reporting t).result = exitStatus t.result := by
  unfold reporting
  split
  · next status hresult => rw [hresult, exitStatus]
  · next e hresult =>
    rw [hresult, exitStatus]
    split
    · rfl
    · exact hresult

variable {override : Option String} {o : Options} {level : Level}

theorem error_of_configure {name : Option String} {e : Error}
    (h : Level.configure name override = .error e) :
    e.isReported = true ∨ (name = none ∧ override = none ∧ e = .missingText) := by
  unfold Level.configure at h
  split at h
  · unfold Level.read at h
    simp only at h
    split at h
    · exact nomatch h
    · obtain rfl := Except.error.inj h
      exact .inl rfl
  · next hnone =>
    obtain ⟨hoverride, hname⟩ := Option.or_eq_none_iff.1 hnone
    exact .inr ⟨hname, hoverride, (Except.error.inj h).symm⟩

theorem execute_of_level (files : Files)
    (hlevel : Level.configure (o.logLevel.map Level.name) override = .ok level) :
    (execute files override o).output = (run files o).output ∧
      (execute files override o).status = exitStatus (run files o).result := by
  unfold execute
  rw [hlevel]
  exact ⟨output_reporting _, result_reporting _⟩

theorem execute_of_no_level (files : Files) {e : Error}
    (hlevel : Level.configure (o.logLevel.map Level.name) override = .error e) :
    (execute files override o).output = [] ∧
      (execute files override o).status = exitStatus (.error e) := by
  unfold execute
  rw [hlevel, exitStatus]
  simp only
  split <;> exact ⟨rfl, rfl⟩

end CommandLine

end CnfSolver
