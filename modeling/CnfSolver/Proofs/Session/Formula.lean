import CnfSolver.Proofs.Formula.Encoding
import CnfSolver.Proofs.Formula.Text
import CnfSolver.Proofs.Session.Batches
import CnfSolver.Proofs.Session.CrossCheck

/-!
# Sessions and formulas

A session that takes a formula into an empty table is solved as the formula is: with values of its
names that make it true, or with none if there are none. So the verdict hangs on the set of clauses
alone, and with the names in the same order so does the solution.
-/

namespace CnfSolver

open Assignment (IsModel IsLeastModel valuesOf)

namespace Assignment

theorem IsLeastModel.unique {n : Nat} {cs cs' : List Clause} {m m' : Assignment}
    (h : IsLeastModel n cs m) (h' : IsLeastModel n cs' m')
    (hmodels : ∀ m, IsModel n cs m ↔ IsModel n cs' m) : m = m' := by
  rcases h.least m' ((hmodels m').2 h'.toIsModel) with heq | hbefore
  · exact heq.symm
  · rcases h'.least m ((hmodels m).1 h.toIsModel) with heq | hbefore'
    · exact heq
    · exact absurd hbefore' hbefore.asymm

end Assignment

namespace Solution

inductive Decides (f : Formula) : Solution → Prop
  | model {value : String → Bool} (h : f.Holds value) :
      Decides f (.model f.names (valuesOf f.names value))
  | unsatisfiable (h : ¬f.IsSatisfiable) : Decides f .unsatisfiable

variable {f : Formula} {solution : Solution}

theorem Decides.isModel_iff (h : solution.Decides f) :
    solution.isModel = true ↔ f.IsSatisfiable := by
  cases h with
  | model h => exact ⟨fun _ => ⟨_, h⟩, fun _ => rfl⟩
  | unsatisfiable h => exact ⟨fun hmodel => (nomatch hmodel), fun hsat => absurd hsat h⟩

theorem Solves.unique {names : List String} {cs cs' : List Clause} {solution' : Solution}
    (h : solution.Solves names cs) (h' : solution'.Solves names cs')
    (hmodels : ∀ m, IsModel names.length cs m ↔ IsModel names.length cs' m) :
    solution = solution' := by
  have hexists := exists_congr hmodels
  cases h with
  | model hm =>
      cases h' with
      | model hm' => rw [hm.unique hm' hmodels]
      | unsatisfiable hno => exact absurd (hexists.1 ⟨_, hm.toIsModel⟩) hno
  | unsatisfiable hno =>
      cases h' with
      | model hm' => exact absurd (hexists.2 ⟨_, hm'.toIsModel⟩) hno
      | unsatisfiable _ => rfl

end Solution

namespace Session

variable {s s' : Session} {f f' : Formula}

/-- The clauses of the session stand for those of the formula, and its names are numbered as they
occur there. -/
structure Represents (s : Session) (f : Formula) : Prop where
  sound : s.IsSound
  nodup : s.names.Nodup
  names_eq : s.names = f.names
  decodes : List.Forall₂ s.table.Decodes s.clauses f.named

theorem represents_addNames (hne : [] ∉ f) :
    (Session.empty.addNames f.named).2 = .done () ∧
      (Session.empty.addNames f.named).1.Represents f := by
  have hconsistent : empty.table.IsConsistent := NameTable.isConsistent_empty
  obtain ⟨cs, hok, hempty⟩ := NameTable.encodeAll_named empty.table f
  have hnonempty : f.any List.isEmpty = false := by
    rw [List.any_eq_false]
    intro clause hclause hnil
    exact hne (List.isEmpty_iff.1 hnil ▸ hclause)
  have hcheck : checkClauses (empty.table.encodeAll f.named).1.size cs = .ok () := by
    rw [checkClauses_of_inRange, hempty, hnonempty]
    · rfl
    · exact inRange_iff_variablesOf.2 (hconsistent.discovers_encodeAll _ hok).bounds
  have hadd : Session.empty.addNames f.named =
      (⟨(empty.table.encodeAll f.named).1, cs, none, .accepting⟩, .done ()) := by
    rw [addNames, whenAccepting_of_accepting rfl]
    cases hencode : empty.table.encodeAll f.named with
    | mk table result =>
        rw [hencode] at hok hcheck
        obtain rfl : result = .ok cs := hok
        rw [commitEncoded, commit, hcheck]
        rfl
  rw [hadd]
  refine ⟨rfl, ⟨checkClauses_eq_ok.1 hcheck, ?_⟩, ?_, ?_, ?_⟩
  · rintro _ ⟨⟩
  · exact (hconsistent.encodeAll f.named).nodup
  · exact hconsistent.names_encodeAll f
  · exact hconsistent.decodes_encodeAll f.named hok

namespace Represents

theorem isModel_iff (h : s.Represents f) {m : Assignment} :
    IsModel s.names.length s.clauses m ↔ ∃ value, m = valuesOf s.names value ∧ f.Holds value :=
  NameTable.isModel_iff h.nodup h.sound.wellFormed h.decodes

theorem decides_of_solves (h : s.Represents f) {solution : Solution}
    (hsolves : solution.Solves s.names s.clauses) : solution.Decides f := by
  cases hsolves with
  | model hm =>
      obtain ⟨value, rfl, hholds⟩ := h.isModel_iff.1 hm.toIsModel
      rw [h.names_eq]
      exact .model hholds
  | unsatisfiable hno =>
      apply Solution.Decides.unsatisfiable
      rintro ⟨value, hholds⟩
      exact hno ⟨_, h.isModel_iff.2 ⟨value, rfl, hholds⟩⟩

theorem answer (h : s.Represents f) (format : Format) (check : Bool) :
    ∃ solution : Solution, solution.Decides f ∧
      (s.answer format check).2.output =
        [.line (if solution.isModel then solution.render format else "UNSAT")] ∧
      (s.answer format check).2.result = .ok (if solution.isModel then 0 else 1) := by
  obtain ⟨solution, hsolves, hanswer⟩ := h.sound.answer format
  obtain ⟨-, houtput, hresult⟩ := hanswer check
  exact ⟨solution, h.decides_of_solves hsolves, houtput, hresult⟩

/-- Formulas with the same clauses, whatever their order, are both satisfiable or both not, and with
their names in the same order they have the same solution. -/
theorem solve_congr (h : s.Represents f) (h' : s'.Represents f')
    (hset : f.clauseSet = f'.clauseSet) :
    ∃ solution solution', s.solve.2.result = .ok solution ∧ s'.solve.2.result = .ok solution' ∧
      solution.isModel = solution'.isModel ∧ (s.names = s'.names → solution = solution') := by
  obtain ⟨solution, hresult, hsolves, -⟩ := h.sound.solve
  obtain ⟨solution', hresult', hsolves', -⟩ := h'.sound.solve
  refine ⟨solution, solution', hresult, hresult', ?_, fun hnames => ?_⟩
  · rw [Bool.eq_iff_iff, (h.decides_of_solves hsolves).isModel_iff,
      (h'.decides_of_solves hsolves').isModel_iff]
    exact Formula.isSatisfiable_congr hset
  · rw [← hnames] at hsolves'
    apply hsolves.unique hsolves'
    intro m
    have hiff := h'.isModel_iff (m := m)
    rw [← hnames] at hiff
    rw [h.isModel_iff, hiff]
    simp only [Formula.holds_congr hset]

end Represents

/-! ## Lines of text -/

theorem textFault?_eq_none_iff {lines : List String} :
    textFault? lines = none ↔ ∀ line ∈ lines, ¬IsFaulty line := by
  have hliteral : ∀ line, NameTable.lineFault? line = none ↔
      ∀ token ∈ Text.words line.toList, SignedName.IsLiteral token := by
    intro line
    rw [NameTable.lineFault?, Option.map_eq_none_iff, List.find?_eq_none]
    apply forall₂_congr
    intro token htoken
    rw [decide_eq_true_iff, SignedName.isBadToken_iff (Text.ne_nil_of_mem_words htoken), not_not]
  have hblank : emptyFault? (lines.any fun line => line.toList.all Text.isBlank) = none ↔
      ∀ line ∈ lines, ¬∀ c ∈ line.toList, Text.isBlank c = true := by
    unfold emptyFault?
    simp only [ite_eq_right_iff, reduceCtorEq, imp_false, List.any_eq_true, List.all_eq_true,
      not_exists, not_and]
  rw [textFault?, Option.or_eq_none_iff, hblank, List.findSome?_eq_none_iff]
  simp only [hliteral, not_isFaulty_iff]
  rw [and_comm, ← forall₂_and]

/-- Lines without a fault denote a formula, and a session that takes them represents it. -/
theorem exists_represents {lines : List String} (h : textFault? lines = none) :
    ∃ f, List.Forall₂ Denotes lines f ∧ (Session.empty.addText lines).2 = .done () ∧
      (Session.empty.addText lines).1.Represents f := by
  rw [textFault?_eq_none_iff] at h
  obtain ⟨f, hf, hne⟩ := exists_forall₂_denotes h
  refine ⟨f, hf, ?_⟩
  rw [addText, forall₂_denotes_iff.1 hf]
  exact represents_addNames hne

theorem textFault?_eq_none_of_addText {lines : List String}
    (h : (Session.empty.addText lines).2.result = .ok ()) : textFault? lines = none := by
  rw [addText_of_accepting rfl NameTable.isConsistent_empty] at h
  cases hfault : textFault? lines with
  | none => rfl
  | some e =>
      rw [hfault] at h
      exact nomatch h

/-- Lines that an empty session takes and that denote the same set of clauses have the same verdict,
and if their names are in the same order they have the same solution. -/
theorem solve_of_clauseSetOf_eq {lines lines' : List String}
    (hok : (Session.empty.addText lines).2.result = .ok ())
    (hok' : (Session.empty.addText lines').2.result = .ok ())
    (hset : clauseSetOf lines = clauseSetOf lines') :
    ∃ solution solution', (Session.empty.addText lines).1.solve.2.result = .ok solution ∧
      (Session.empty.addText lines').1.solve.2.result = .ok solution' ∧
      solution.isModel = solution'.isModel ∧
      ((Session.empty.addText lines).1.names = (Session.empty.addText lines').1.names →
        solution = solution') := by
  obtain ⟨f, hf, -, hs⟩ := exists_represents (textFault?_eq_none_of_addText hok)
  obtain ⟨f', hf', -, hs'⟩ := exists_represents (textFault?_eq_none_of_addText hok')
  rw [clauseSetOf_eq hf, clauseSetOf_eq hf'] at hset
  exact hs.solve_congr hs' hset

/-- Lines come in another order, and words and lines twice: once so that the names are numbered
otherwise, and once so that they are not. -/
theorem solve_of_clauseSetOf_eq_reordered :
    let s := (Session.empty.addText ["A ~B", "B C"]).1
    let s' := (Session.empty.addText ["C B\tB", " ~B A A", "A ~B"]).1
    let s'' := (Session.empty.addText ["A ~B A", "  B C", "~B A"]).1
    s.names = ["A", "B", "C"] ∧ s'.names = ["C", "B", "A"] ∧
      (∃ solution solution', s.solve.2.result = .ok solution ∧ s'.solve.2.result = .ok solution' ∧
        solution.isModel = solution'.isModel) ∧
      s.solve.2.result = s''.solve.2.result := by
  intro s s' s''
  have hdenotes : List.Forall₂ Denotes ["A ~B", "B C"]
      [[⟨"A", false⟩, ⟨"B", true⟩], [⟨"B", false⟩, ⟨"C", false⟩]] := by decide +kernel
  have hdenotes' : List.Forall₂ Denotes ["C B\tB", " ~B A A", "A ~B"]
      [[⟨"C", false⟩, ⟨"B", false⟩, ⟨"B", false⟩], [⟨"B", true⟩, ⟨"A", false⟩, ⟨"A", false⟩],
        [⟨"A", false⟩, ⟨"B", true⟩]] := by decide +kernel
  have hdenotes'' : List.Forall₂ Denotes ["A ~B A", "  B C", "~B A"]
      [[⟨"A", false⟩, ⟨"B", true⟩, ⟨"A", false⟩], [⟨"B", false⟩, ⟨"C", false⟩],
        [⟨"B", true⟩, ⟨"A", false⟩]] := by decide +kernel
  have hset : clauseSetOf ["A ~B", "B C"] = clauseSetOf ["C B\tB", " ~B A A", "A ~B"] := by
    rw [clauseSetOf_eq hdenotes, clauseSetOf_eq hdenotes']
    decide +kernel
  have hset' : clauseSetOf ["A ~B", "B C"] = clauseSetOf ["A ~B A", "  B C", "~B A"] := by
    rw [clauseSetOf_eq hdenotes, clauseSetOf_eq hdenotes'']
    decide +kernel
  obtain ⟨solution, solution', hsolution, hsolution', hverdict, -⟩ :=
    solve_of_clauseSetOf_eq (by decide +kernel) (by decide +kernel) hset
  obtain ⟨solution₁, solution'', hsolution₁, hsolution'', -, heq⟩ :=
    solve_of_clauseSetOf_eq (by decide +kernel) (by decide +kernel) hset'
  refine ⟨by decide +kernel, by decide +kernel,
    ⟨solution, solution', hsolution, hsolution', hverdict⟩, ?_⟩
  rw [hsolution₁, hsolution'', heq (by decide +kernel)]

end Session

end CnfSolver
