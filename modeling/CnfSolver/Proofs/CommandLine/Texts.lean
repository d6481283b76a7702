import CnfSolver.Proofs.CommandLine.Outcome
import CnfSolver.Proofs.Options.Sources

/-!
# Texts on the command line

Texts are one formula. The command line answers it, or refuses a text that is blank or has a token
that is no literal and prints nothing.
-/

namespace CnfSolver.CommandLine

variable {texts : List String} {o : Options}

theorem solveTexts_eq (o : Options) (texts : List String) :
    solveTexts o (texts.map some) = (Session.empty.addText texts).2.bind fun _ =>
      ((Session.empty.addText texts).1.answer (o.format.getD .string) o.check).2 := by
  have hnames : (texts.map some).map textNames = texts.map NameTable.lineNames := by
    rw [List.map_map]
    rfl
  rw [solveTexts, hnames]
  rfl

theorem solveTexts_of_fault (o : Options) {e : Error} (hfault : Session.textFault? texts = some e) :
    (solveTexts o (texts.map some)).output = [] ∧
      (solveTexts o (texts.map some)).result = .error e ∧ e.isReported = true := by
  have hadded : (Session.empty.addText texts).2.result = .error e := by
    rw [Session.addText_of_accepting rfl NameTable.isConsistent_empty, hfault]
    rfl
  rw [solveTexts_eq, Transcript.bind_of_error hadded]
  exact ⟨rfl, rfl, Error.isReported_of_category (Session.category_of_textFault? hfault)⟩

theorem solveTexts_of_represents (o : Options) {f : Formula}
    (hadded : (Session.empty.addText texts).2 = .done ())
    (hs : (Session.empty.addText texts).1.Represents f) :
    ∃ text status, f.Answers (o.format.getD .string) text status ∧
      (solveTexts o (texts.map some)).output = [.line text] ∧
      (solveTexts o (texts.map some)).result = .ok status := by
  rw [solveTexts_eq, hadded]
  exact hs.answers (o.format.getD .string) o.check

theorem run_texts (files : Files) (hbench : o.bench.join.getD "" = "") (hne : o.clause ≠ []) :
    run files o = solveTexts o o.clause := by
  rw [run, hbench, List.isEmpty_eq_false_iff.2 hne]
  rfl

variable {override : Option String} {level : Level}

/-- Texts without a fault denote a formula, and its answer is printed and gives the status. -/
theorem execute_texts_of_not_isFaulty {files : Files}
    (hrun : run files o = solveTexts o (texts.map some))
    (hlevel : Level.configure (o.logLevel.map Level.name) override = .ok level)
    (seconds : String → String × String) (hgood : ∀ text ∈ texts, ¬IsFaulty text) :
    ∃ (f : Formula) (line : String) (status : Nat),
      List.Forall₂ Denotes texts f ∧ f.Answers (o.format.getD .string) line status ∧
      Text.IsUnbroken line.toList ∧
      (execute files override o).printed seconds = line ++ "\n" ∧
      (execute files override o).status = .ok status ∧ (status = 0 ↔ f.IsSatisfiable) := by
  obtain ⟨f, hf, hadded, hs⟩ :=
    Session.exists_represents (Session.textFault?_eq_none_iff.2 hgood)
  obtain ⟨line, status, hanswers, hprinted, hresult⟩ := solveTexts_of_represents o hadded hs
  obtain ⟨houtput, hstatus⟩ := execute_of_level files hlevel
  rw [hrun] at houtput hstatus
  refine ⟨f, line, status, hf, hanswers,
    hanswers.isUnbroken (isProper_of_forall₂_denotes hf), ?_, ?_, hanswers.status_eq_zero_iff⟩
  · rw [Outcome.printed, houtput, hprinted, List.map_singleton, String.join_cons, String.join_nil,
      String.append_empty]
    rfl
  · rw [hstatus, hresult, exitStatus]

/-- The status is 2 and nothing is printed if and only if some text is faulty. Otherwise the texts
denote a formula, and its answer is the only line and gives the status. -/
theorem execute_texts {argv : List String} (hparse : Options.parse argv = .ok o)
    (htexts : o.clause = texts.map some) (hne : texts ≠ [])
    (hlevel : Level.configure (o.logLevel.map Level.name) override = .ok level)
    (files : Files) (seconds : String → String × String) :
    let outcome := execute files override o
    (outcome.status = .ok 2 ∧ outcome.printed seconds = "" ↔ ∃ text ∈ texts, IsFaulty text) ∧
      ((∀ text ∈ texts, ¬IsFaulty text) → ∃ (f : Formula) (line : String) (status : Nat),
        List.Forall₂ Denotes texts f ∧ f.Answers (o.format.getD .string) line status ∧
        Text.IsUnbroken line.toList ∧ outcome.printed seconds = line ++ "\n" ∧
        outcome.status = .ok status ∧ (status = 0 ↔ f.IsSatisfiable)) := by
  intro outcome
  have hclause : o.clause ≠ [] := by
    rw [htexts, ne_eq, List.map_eq_nil_iff]
    exact hne
  have hbench : o.bench = none :=
    (Options.isExclusive_of_parse hparse).clause_or_bench.resolve_left hclause
  have hrun : run files o = solveTexts o (texts.map some) := by
    rw [run_texts files (by rw [hbench]; rfl) hclause, htexts]
  refine ⟨⟨?_, ?_⟩, execute_texts_of_not_isFaulty hrun hlevel seconds⟩
  · rintro ⟨htwo, -⟩
    by_contra hno
    push Not at hno
    obtain ⟨f, line, status, -, hanswers, -, -, hok, -⟩ :=
      execute_texts_of_not_isFaulty hrun hlevel seconds hno
    have hle : status ≤ 1 := hanswers.status_le_one
    have heq : status = 2 := Except.ok.inj (hok.symm.trans htwo)
    omega
  · rintro ⟨text, htext, hfaulty⟩
    obtain ⟨houtput, hstatus⟩ := execute_of_level files hlevel
    rw [hrun] at houtput hstatus
    cases hfault : Session.textFault? texts with
    | none => exact absurd hfaulty (Session.textFault?_eq_none_iff.1 hfault text htext)
    | some e =>
        obtain ⟨hprinted, herror, hreported⟩ := solveTexts_of_fault o hfault
        constructor
        · rw [hstatus, herror, exitStatus, if_pos hreported]
        · rw [Outcome.printed, houtput, hprinted]
          rfl

/-- Of two runs, one answers its texts in JSON, and one has a text with a bad token. -/
theorem execute_texts_of_two_runs :
    let files := (FileTree.mk [] []).toFiles
    let seconds := fun _ => ("", "")
    let o : Options := ⟨[], [some "A ~B", some " B\tA "], none, some .json, true, some .warning⟩
    let o' : Options := ⟨[], [some "A ~B", some "A ~"], none, some .string, false, some .warning⟩
    Options.parse ["-c", "A ~B", "--check", "--clause= B\tA ", "-fjson"] = .ok o ∧
      Options.parse ["-c", "A ~B", "-cA ~"] = .ok o' ∧
      (∃ (f : Formula) (line : String) (status : Nat),
        List.Forall₂ Denotes ["A ~B", " B\tA "] f ∧ f.Answers .json line status ∧
        (execute files (some "info") o).printed seconds = line ++ "\n" ∧
        (execute files (some "info") o).status = .ok status ∧ f.IsSatisfiable) ∧
      (execute files none o').status = .ok 2 ∧ (execute files none o').printed seconds = "" := by
  intro files seconds o o'
  have hparse : Options.parse ["-c", "A ~B", "--check", "--clause= B\tA ", "-fjson"] = .ok o := by
    decide +kernel
  have hparse' : Options.parse ["-c", "A ~B", "-cA ~"] = .ok o' := by decide +kernel
  have hgood : ∀ text ∈ ["A ~B", " B\tA "], ¬IsFaulty text :=
    Session.textFault?_eq_none_iff.1 (by decide +kernel)
  have hlevel : Level.configure (o.logLevel.map Level.name) (some "info") = .ok .info := by
    decide +kernel
  have hlevel' : Level.configure (o'.logLevel.map Level.name) none = .ok .warning := by
    decide +kernel
  have hzero : (execute files (some "info") o).status = .ok 0 := by decide +kernel
  obtain ⟨f, line, status, hf, hanswers, -, hprinted, hstatus, hiff⟩ :=
    (execute_texts hparse rfl (by decide) hlevel files seconds).2 hgood
  have hfaulty : ∃ text ∈ ["A ~B", "A ~"], IsFaulty text := by
    by_contra hno
    push Not at hno
    exact absurd (Session.textFault?_eq_none_iff.2 hno) (by decide +kernel)
  refine ⟨hparse, hparse', ⟨f, line, status, hf, hanswers, hprinted, hstatus, ?_⟩, ?_⟩
  · exact hiff.1 (Except.ok.inj (hstatus.symm.trans hzero))
  · exact (execute_texts hparse' rfl (by decide) hlevel' files seconds).1.2 hfaulty

end CnfSolver.CommandLine
