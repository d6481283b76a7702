import CnfSolver.Dimacs
import CnfSolver.Proofs.Traversal

/-!
# What loading a file fails with

The errors of files are not errors of the solver. So a file that cannot be loaded gives an error of
its own, or one about a value if a token of it is no numeral.
-/

namespace CnfSolver

theorem Error.isReported_of_category {e : Error} {category : Category}
    (h : e.category = some category) : e.isReported = true := by
  cases e with
  | badLiteral | emptyClause | literalRange | solved | tooManyVariables | badSetting => rfl
  | general | file => rfl
  | _ => exact nomatch h

/-- The files fail for reasons of their own and not with errors of the solver. -/
def Files.IsPlain (files : Files) : Prop :=
  ∀ path e, files.read path = .error e → e.category = none

theorem Files.IsPlain.category_of_text {files : Files} (hfiles : files.IsPlain)
    {isEnough : List Char → Bool} {path : String} {e : Error}
    (h : files.text isEnough path = .error e) : e.category = none := by
  unfold text at h
  cases hread : files.read path with
  | error e' =>
      rw [hread] at h
      obtain rfl := Except.error.inj h
      exact hfiles path e' hread
  | ok bytes =>
      rw [hread] at h
      simp only at h
      split at h
      · exact nomatch h
      · obtain rfl := Except.error.inj h
        rfl

/-! ## File trees -/

namespace FileTree

inductive PathFault (path : String) : Error → Prop
  | file (fault : FileFault) : PathFault path (.file fault path)
  | nulInPath (h : '\x00' ∈ path.toList) : PathFault path .nulInPath

variable {t : FileTree} {path : String} {e : Error}

theorem PathFault.category_eq (h : PathFault path e) : e.category = none := by
  cases h <;> rfl

theorem pathFault_of_resolve (h : t.resolve path = .error e) : PathFault path e := by
  unfold resolve at h
  split at h
  · next hnul =>
    obtain rfl := Except.error.inj h
    exact .nulInPath (by simpa using hnul)
  · split at h
    · obtain rfl := Except.error.inj h
      exact .file .notFound
    · simp only at h
      split at h
      · exact nomatch h
      · obtain rfl := Except.error.inj h
        exact .file _

theorem pathFault_of_read (h : t.read path = .error e) : PathFault path e := by
  unfold read at h
  split at h
  · next hresolve =>
    obtain rfl := Except.error.inj h
    exact pathFault_of_resolve hresolve
  · obtain rfl := Except.error.inj h
    exact .file .isDirectory
  · split at h
    · exact nomatch h
    · obtain rfl := Except.error.inj h
      exact .file .isDirectory

theorem isPlain_toFiles (t : FileTree) : t.toFiles.IsPlain :=
  fun _ _ h => (pathFault_of_read h).category_eq

end FileTree

/-! ## DIMACS files -/

namespace Dimacs

theorem category_of_read {path : String} {text : List Char} {e : Error}
    (h : read path text = .error e) : e.category = some .value := by
  unfold read at h
  split at h
  · exact nomatch h
  · next hmap =>
    obtain rfl := Except.error.inj h
    obtain ⟨before, token, after, -, -, htoken⟩ := mapM_eq_error_iff.1 hmap
    unfold readToken at htoken
    split at htoken
    · exact nomatch htoken
    · obtain rfl := Except.error.inj htoken
      rfl

theorem category_of_load {files : Files} (hfiles : files.IsPlain) {path : String} {e : Error}
    (h : (load files path).result = .error e) :
    e.category = none ∨ e.category = some .value := by
  unfold load at h
  split at h
  · next htext =>
    obtain rfl := Except.error.inj h
    exact .inl (hfiles.category_of_text htext)
  · exact .inr (category_of_read h)

end Dimacs

end CnfSolver
