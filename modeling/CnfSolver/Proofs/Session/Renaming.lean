import CnfSolver.Proofs.Formula.Renaming
import CnfSolver.Proofs.Session.Formula
import CnfSolver.Proofs.Solution.Line

/-!
# Sessions under renaming

Renaming the names of a session commutes with adding clauses and with solving: the clauses and the
values of the variables stay the same, and the new names stand where the old ones did. So it does
not matter what the names are, and in particular not how they compare other than by equality.
-/

namespace CnfSolver

open SignedName (IsProper)

variable {ρ : String → String} {S : Set String}

namespace Solution

def rename (ρ : String → String) : Solution → Solution
  | model names a => model (names.map ρ) a
  | unsatisfiable => unsatisfiable

theorem assignment?_rename (ρ : String → String) (solution : Solution) :
    (solution.rename ρ).assignment? = solution.assignment? := by
  cases solution with
  | model names a => rfl
  | unsatisfiable => rfl

/-- The values stay in their places, by the new names. -/
theorem Solves.entries?_rename {names : List String} {cs : List Clause} {solution : Solution}
    (h : solution.Solves names cs) (hnodup : names.Nodup) (hρ : Set.InjOn ρ {x | x ∈ names}) :
    (solution.rename ρ).entries? =
      solution.entries?.map fun entries => entries.map fun entry => (ρ entry.1, entry.2) := by
  cases h with
  | @model m hm =>
      have hlength : names.length ≤ m.length := hm.length_eq.ge
      have hlength' : (names.map ρ).length ≤ m.length := by rwa [List.length_map]
      have hnodup' : (names.map ρ).Nodup := hnodup.map_on fun _ hx _ hy heq => hρ hx hy heq
      simp only [rename, entries?, Option.map_some, entriesOf_of_nodup hnodup hlength,
        entriesOf_of_nodup hnodup' hlength', List.zip_map_left]
      rfl
  | unsatisfiable => rfl

end Solution

namespace Session

variable {s : Session}

def rename (ρ : String → String) (s : Session) : Session :=
  { s with table := s.table.rename ρ, solution := s.solution.map (Solution.rename ρ) }

/-! ## Adding clauses -/

theorem commit_rename (ρ : String → String) (s : Session) (table : NameTable)
    (clauses : List Clause) :
    (s.rename ρ).commit (table.rename ρ) clauses =
      ((s.commit table clauses).1.rename ρ, (s.commit table clauses).2) := by
  rw [commit, commit, NameTable.size_rename]
  cases checkClauses table.size clauses with
  | error e => rfl
  | ok _ => rfl

theorem commitEncoded_rename (ρ : String → String) (s : Session) (table : NameTable)
    (result : Except Error (List Clause)) :
    (s.rename ρ).commitEncoded (table.rename ρ, result) =
      ((s.commitEncoded (table, result)).1.rename ρ, (s.commitEncoded (table, result)).2) := by
  cases result with
  | error e => rfl
  | ok clauses => exact commit_rename ρ s table clauses

theorem addNames_rename (hρ : Set.InjOn ρ S) (hs : s.table.IsOver S) {f : Formula}
    (hf : ∀ clause ∈ f, ∀ x ∈ clause, x.name ∈ S) :
    (s.rename ρ).addNames (f.rename ρ).named =
      ((s.addNames f.named).1.rename ρ, (s.addNames f.named).2) := by
  have hencode : (s.rename ρ).table.encodeAll (f.rename ρ).named = _ :=
    NameTable.encodeAll_rename hρ hs hf
  cases hstage : s.stage with
  | solved =>
      have hstage' : (s.rename ρ).stage = .solved := hstage
      rw [addNames, addNames, whenAccepting_of_solved hstage, whenAccepting_of_solved hstage']
  | accepting =>
      have hstage' : (s.rename ρ).stage = .accepting := hstage
      rw [addNames, addNames, whenAccepting_of_accepting hstage,
        whenAccepting_of_accepting hstage', hencode, commitEncoded_rename]

/-! ## Solving -/

theorem solutionOf_rename (ρ : String → String) (names : List String) (cs : List Clause) :
    (solutionOf (names.map ρ) cs).result =
      (solutionOf names cs).result.map (Solution.rename ρ) := by
  rw [solutionOf, solutionOf, Transcript.result_bind_done, Transcript.result_bind_done,
    List.length_map]
  cases (Search.firstModel names.length cs).result with
  | error e => rfl
  | ok model? =>
      cases model? with
      | none => rfl
      | some model => rfl

theorem IsSound.solve_rename (hs : s.IsSound) (ρ : String → String) :
    ∃ solution, s.solve.2.result = .ok solution ∧ solution.Solves s.names s.clauses ∧
      (s.rename ρ).solve.2.result = .ok (solution.rename ρ) := by
  cases hsolution : s.solution with
  | some solution =>
      have hsolution' : (s.rename ρ).solution = some (solution.rename ρ) :=
        congrArg (Option.map (Solution.rename ρ)) hsolution
      rw [solve_of_solution hsolution, solve_of_solution hsolution']
      exact ⟨solution, rfl, (hs.solved solution hsolution).2, rfl⟩
  | none =>
      have hsolution' : (s.rename ρ).solution = none :=
        congrArg (Option.map (Solution.rename ρ)) hsolution
      obtain ⟨solution, hresult, hsolves⟩ := solutionOf_spec hs.wellFormed
      have hresult' : (solutionOf (s.rename ρ).names (s.rename ρ).clauses).result =
          .ok (solution.rename ρ) := by
        have hmap := solutionOf_rename ρ s.names s.clauses
        rw [hresult] at hmap
        exact hmap
      exact ⟨solution, (solve_of_solution_eq_none hsolution hresult).2, hsolves,
        (solve_of_solution_eq_none hsolution' hresult').2⟩

/-! ## Lines of text -/

/-- If the names in lines that an empty session takes are replaced by distinct names that can stand
in a line, the session takes these lines too. The clauses and the values of the variables are the
same, and the names and the values by name have the new names in the places of the old ones. -/
theorem solve_of_renames {lines lines' : List String}
    (hok : (empty.addText lines).2.result = .ok ()) (hρ : Set.InjOn ρ (namesIn lines))
    (hproper : ∀ name ∈ namesIn lines, IsProper (ρ name))
    (hlines : List.Forall₂ (Renames ρ) lines lines') :
    (empty.addText lines').2.result = .ok () ∧
    (empty.addText lines').1.clauses = (empty.addText lines).1.clauses ∧
    (empty.addText lines').1.names = (empty.addText lines).1.names.map ρ ∧
    ∃ solution solution', (empty.addText lines).1.solve.2.result = .ok solution ∧
      (empty.addText lines').1.solve.2.result = .ok solution' ∧
      solution'.assignment? = solution.assignment? ∧
      solution'.entries? =
        solution.entries?.map fun entries => entries.map fun entry => (ρ entry.1, entry.2) := by
  obtain ⟨f, hf, hdone, hs⟩ := exists_represents (textFault?_eq_none_of_addText hok)
  have hnames := mem_namesIn hf
  have hf' : List.Forall₂ Denotes lines' (Formula.rename ρ f) := by
    apply forall₂_denotes_rename hf hlines
    exact fun clause hclause x hx => hproper _ (hnames clause hclause x hx)
  have hadd : empty.addText lines' =
      ((empty.addText lines).1.rename ρ, (empty.addText lines).2) := by
    rw [addText, addText, forall₂_denotes_iff.1 hf, forall₂_denotes_iff.1 hf']
    exact addNames_rename (s := empty) hρ NameTable.isOver_empty hnames
  rw [hadd]
  obtain ⟨solution, hresult, hsolves, hresult'⟩ := hs.sound.solve_rename ρ
  refine ⟨hok, rfl, rfl, solution, _, hresult, hresult', solution.assignment?_rename ρ, ?_⟩
  apply hsolves.entries?_rename hs.nodup
  apply hρ.mono
  intro name hname
  have hmem : name ∈ Formula.names f := by
    rw [← hs.names_eq]
    exact hname
  obtain ⟨clause, hclause, x, hx, rfl⟩ := Formula.mem_names hmem
  exact hnames clause hclause x hx

/-- Two names change places, one of them the beginning of the other, and a third becomes a
number. -/
theorem solve_of_renames_swapped :
    let s := (empty.addText ["A ~AB", "AB x AB", "~A"]).1
    let s' := (empty.addText [" AB\t~A", "A -1 A", "~AB "]).1
    (empty.addText [" AB\t~A", "A -1 A", "~AB "]).2.result = .ok () ∧
    s.names = ["A", "AB", "x"] ∧ s'.names = ["AB", "A", "-1"] ∧
    ∃ solution solution', s.solve.2.result = .ok solution ∧ s'.solve.2.result = .ok solution' ∧
      solution.entries? = some [("A", some 0), ("AB", some 0), ("x", some 1)] ∧
      solution'.entries? = some [("AB", some 0), ("A", some 0), ("-1", some 1)] := by
  intro s s'
  have hnames : ∀ name ∈ namesIn ["A ~AB", "AB x AB", "~A"],
      name = "A" ∨ name = "AB" ∨ name = "x" := by
    rintro _ ⟨line, hline, token, htoken, rfl⟩
    revert line token
    decide +kernel
  have hρ : Set.InjOn (fun name => if name = "A" then "AB" else if name = "AB" then "A" else "-1")
      (namesIn ["A ~AB", "AB x AB", "~A"]) := by
    intro x hx y hy
    rcases hnames x hx with rfl | rfl | rfl <;> rcases hnames y hy with rfl | rfl | rfl <;> decide
  obtain ⟨hok, -, hrenamed, solution, solution', hresult, hresult', -, hentries⟩ :=
    solve_of_renames (by decide +kernel) hρ
      (by
        intro name hname
        rcases hnames name hname with rfl | rfl | rfl <;> decide +kernel)
      (show List.Forall₂ _ _ [" AB\t~A", "A -1 A", "~AB "] by decide +kernel)
  have hvalues : s.solve.2.result = .ok (.model ["A", "AB", "x"] [some 0, some 0, some 1]) := by
    decide +kernel
  obtain rfl := Except.ok.inj (hvalues.symm.trans hresult)
  have hold : s.names = ["A", "AB", "x"] := by decide +kernel
  exact ⟨hok, hold, hrenamed, _, solution', hresult, hresult', by decide +kernel, hentries⟩

end Session

end CnfSolver
