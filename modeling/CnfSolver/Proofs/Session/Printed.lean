import CnfSolver.Proofs.Session.Representation
import CnfSolver.Proofs.Session.Solve
import CnfSolver.Proofs.Solution.Text

/-!
# Printed models

The names of a session are distinct and have no blanks, and a model has one value for each. So a
model is printed on one line, and each of the two formats says what the names and the values are.
-/

namespace CnfSolver.Session

open Assignment (valuesOf)

variable {s s' : Session} {solution solution' : Solution}

theorem IsSound.exists_valuesOf (hs : s.IsSound) (hnodup : s.names.Nodup)
    (hsolve : s.solve.2.result = .ok solution) (hmodel : solution.isModel = true) :
    ∃ value, solution = .model s.names (valuesOf s.names value) := by
  obtain ⟨found, hresult, hsolves, -⟩ := hs.solve
  obtain rfl := Except.ok.inj (hresult.symm.trans hsolve)
  cases hsolves with
  | unsatisfiable _ => exact nomatch hmodel
  | model hleast =>
    obtain ⟨value, rfl⟩ := Assignment.exists_valuesOf hnodup hleast.isTotal hleast.length_eq
    exact ⟨value, rfl⟩

/-- After every history in which the stage is not set by hand, a model has one value for each
variable, in their order, and it is printed on one line. Two of them are printed as the same
equations only if they have the same names with the same values, and so it is in JSON. -/
theorem text_determines_model (h : Reaches Action.IsOrdinary .empty s)
    (h' : Reaches Action.IsOrdinary .empty s') (hsolve : s.solve.2.result = .ok solution)
    (hsolve' : s'.solve.2.result = .ok solution') (hmodel : solution.isModel = true)
    (hmodel' : solution'.isModel = true) :
    ∃ m m', solution = .model s.names m ∧ solution' = .model s'.names m' ∧
      m.length = s.names.length ∧ m.IsTotal ∧
      solution.entries? = some (s.names.zip m) ∧
      Text.IsUnbroken solution.text.toList ∧
      (solution.text = solution'.text ↔ s.names = s'.names ∧ m = m') ∧
      (solution.json = solution'.json ↔ solution.text = solution'.text) := by
  have hs : s.IsCanonical := (h.mono fun _ _ => trivial).isCanonical isCanonical_empty
  have hs' : s'.IsCanonical := (h'.mono fun _ _ => trivial).isCanonical isCanonical_empty
  have hnodup : s.names.Nodup := hs.consistent.nodup
  have hnodup' : s'.names.Nodup := hs'.consistent.nodup
  obtain ⟨value, rfl⟩ := (h.isSound isSound_empty).exists_valuesOf hnodup hsolve hmodel
  obtain ⟨value', rfl⟩ := (h'.isSound isSound_empty).exists_valuesOf hnodup' hsolve' hmodel'
  have hlength := Assignment.length_valuesOf s.names value
  have hline : Text.IsUnbroken
      (Solution.text (.model s.names (valuesOf s.names value))).toList := by
    show Text.IsUnbroken (Solution.render (.model ..) .string).toList
    rw [Solution.render_valuesOf hnodup]
    exact Format.isUnbroken_line .string (List.forall_mem_map.2 hs.proper)
  have htext := Solution.text_valuesOf_inj hnodup hs.proper hnodup' hs'.proper value value'
  have hjson := Solution.json_inj hnodup hnodup' hlength
    (Assignment.length_valuesOf s'.names value')
  exact ⟨_, _, rfl, rfl, hlength, Assignment.isTotal_valuesOf s.names value,
    congrArg some (Solution.entriesOf_of_nodup hnodup hlength.ge), hline, htext,
    hjson.trans htext.symm⟩

/-- Two sessions whose names are made up of the punctuation. -/
theorem text_determines_model_of_punctuation :
    let files := (FileTree.mk [] []).toFiles
    let s := empty.performAll files [.addText ["1, ="]]
    let s' := empty.performAll files [.addText ["1 ,"], .addText ["\x7d"], .answer .json true]
    let solution := Solution.model s.names [some 0, some 1]
    let solution' := Solution.model s'.names [some 0, some 1, some 1]
    solution.text = "\x7b1, = 0, = = 1\x7d" ∧ solution'.text = "\x7b1 = 0, , = 1, \x7d = 1\x7d" ∧
      solution.entries? = some (s.names.zip [some 0, some 1]) ∧
      Text.IsUnbroken solution.text.toList ∧
      (solution.json = solution'.json ↔ solution.text = solution'.text) := by
  intro files s s' solution solution'
  have hreaches : Reaches Action.IsOrdinary .empty s := .perform .refl files _ trivial
  have hreaches' : Reaches Action.IsOrdinary .empty s' :=
    .perform (.perform (.perform .refl files _ trivial) files _ trivial) files _ trivial
  have hsolve : s.solve.2.result = .ok solution := by decide +kernel
  have hsolve' : s'.solve.2.result = .ok solution' := by decide +kernel
  obtain ⟨m, m', hm, -, -, -, hentries, hline, -, hjson⟩ :=
    text_determines_model hreaches hreaches' hsolve hsolve' rfl rfl
  obtain ⟨-, rfl⟩ := Solution.model.inj hm
  exact ⟨by decide +kernel, by decide +kernel, hentries, hline, hjson⟩

end CnfSolver.Session
