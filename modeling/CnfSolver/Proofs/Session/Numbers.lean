import CnfSolver.Proofs.Dimacs.Grammar
import CnfSolver.Proofs.NameTable.Numbers
import CnfSolver.Proofs.Session.Files

/-!
# The numbers of a file in a session

The numbers that a file is loaded with are never too long to be names, however their numerals are
written. So every table encodes them, and they stand for themselves there. A session that takes
clauses refuses a loaded file only for an empty clause, and any other file because it cannot be
loaded.
-/

namespace CnfSolver.Session

open FileTree (PathFault)

/-- Why a session that takes clauses refuses a file: the file cannot be read, it is no text, a token
is no numeral, or a clause is empty. -/
inductive Refuses (t : FileTree) (path : String) : Error → Prop
  | unread {fault : FileFault} (h : t.read path = .error (.file fault path)) :
      Refuses t path (.file fault path)
  | notText {bytes : ByteArray} (hread : t.read path = .ok bytes)
      (h : ∀ s : String, bytes ≠ s.toUTF8) : Refuses t path .notText
  | badLiteral {token : List Char} (h : ¬∃ v, Numeral.IsNumeralOf v token) :
      Refuses t path (.badLiteral (String.ofList token) path)
  | emptyClause {clauses : List (List Int)}
      (hload : (Dimacs.load t.toFiles path).result = .ok clauses) (h : [] ∈ clauses) :
      Refuses t path (.emptyClause "cannot add an empty clause")

variable {s : Session} {files : Files} {path : String} {clauses : List (List Int)} {e : Error}

theorem exists_encodeIntegers
    (hbound : ∀ clause ∈ clauses, ∀ v ∈ clause, v.natAbs < 10 ^ Numeral.limit) (t : NameTable) :
    ∃ cs, (t.encodeIntegers clauses).2 = .ok cs := by
  obtain ⟨cs, hok, -⟩ := NameTable.encodeAll_of_no_error (t := t) (findSome?_ofInteger hbound)
  exact ⟨cs, hok⟩

/-- Once a file is loaded, only an empty clause makes a session that takes clauses refuse it. -/
theorem addDimacs_of_load (haccepting : s.stage = .accepting) (ht : s.table.IsConsistent)
    (hload : (Dimacs.load files path).result = .ok clauses) :
    (s.addDimacs files path).2.result = verdict (emptyFault? (decide ([] ∈ clauses))) := by
  have hbound : ∀ clause ∈ clauses, ∀ v ∈ clause, v.natAbs < 10 ^ Numeral.limit :=
    fun clause hclause v hv => (Dimacs.of_load hload clause hclause v hv).2
  rw [addDimacs, whenAccepting_of_accepting haccepting]
  simp only [hload]
  rw [NameTable.encodeIntegers, commitEncoded_encodeAll ht, findSome?_ofInteger hbound,
    any_isEmpty_ofInteger, Option.none_or]

theorem addDimacs_of_not_load (haccepting : s.stage = .accepting)
    (hload : (Dimacs.load files path).result = .error e) :
    (s.addDimacs files path).2.result = .error e := by
  rw [addDimacs, whenAccepting_of_accepting haccepting]
  simp only [hload]

theorem refuses_of_load {t : FileTree} (h : (Dimacs.load t.toFiles path).result = .error e) :
    Refuses t path e ∨ (e = .nulInPath ∧ '\x00' ∈ path.toList) := by
  rcases Dimacs.load_eq_error h with hread | ⟨bytes, hread, ⟨rfl, htext⟩ | ⟨text, hfault⟩⟩
  · cases FileTree.pathFault_of_read hread with
    | file fault => exact .inl (.unread hread)
    | nulInPath hnul => exact .inr ⟨rfl, hnul⟩
  · exact .inl (.notText hread htext.ne_toUTF8)
  · obtain ⟨-, token, -, -, -, htoken, rfl⟩ := Dimacs.read_eq_error_iff.1 hfault
    exact .inl (.badLiteral htoken)

theorem refuses_of_addDimacs {t : FileTree} (haccepting : s.stage = .accepting)
    (ht : s.table.IsConsistent) (h : (s.addDimacs t.toFiles path).2.result = .error e) :
    Refuses t path e ∨ (e = .nulInPath ∧ '\x00' ∈ path.toList) := by
  cases hload : (Dimacs.load t.toFiles path).result with
  | error e' =>
      rw [addDimacs_of_not_load haccepting hload] at h
      obtain rfl := Except.error.inj h
      exact refuses_of_load hload
  | ok clauses =>
      rw [addDimacs_of_load haccepting ht hload] at h
      obtain ⟨hempty, heq⟩ := Option.ite_none_right_eq_some.1 (eq_of_verdict h)
      obtain rfl := Option.some.inj heq
      exact .inl (.emptyClause hload (of_decide_eq_true hempty))

/-- The numbers of a file that is loaded are encoded by every table, and they stand for themselves
under its names from then on. A session that takes clauses refuses the file just when it holds an
empty clause. Any file that such a session refuses cannot be read, is no text, has a token that is
no numeral or holds an empty clause, unless its path is none. -/
theorem standFor_of_load :
    (∀ (files : Files) (path : String) (clauses : List (List Int)),
      (Dimacs.load files path).result = .ok clauses →
      (∀ t : NameTable, ∃ cs, (t.encodeIntegers clauses).2 = .ok cs ∧
        (t.IsConsistent → (t.encodeIntegers clauses).1.StandFor cs clauses)) ∧
      ∀ s, Reaches (fun _ => True) .empty s → s.stage = .accepting →
        (s.addDimacs files path).2.result = verdict (emptyFault? (decide ([] ∈ clauses)))) ∧
    ∀ (t : FileTree) (path : String) (s : Session) (e : Error),
      Reaches (fun _ => True) .empty s → s.stage = .accepting →
      (s.addDimacs t.toFiles path).2.result = .error e →
      Refuses t path e ∨ (e = .nulInPath ∧ '\x00' ∈ path.toList) := by
  refine ⟨fun files path clauses hload => ⟨fun t => ?_, fun s hs haccepting => ?_⟩, ?_⟩
  · have hbound : ∀ clause ∈ clauses, ∀ v ∈ clause, v.natAbs < 10 ^ Numeral.limit :=
      fun clause hclause v hv => (Dimacs.of_load hload clause hclause v hv).2
    obtain ⟨cs, hcs⟩ := exists_encodeIntegers hbound t
    exact ⟨cs, hcs, fun ht => ht.standFor_encodeIntegers hbound hcs⟩
  · exact addDimacs_of_load haccepting (hs.isCanonical isCanonical_empty).consistent hload
  · intro t path s e hs haccepting herror
    have ht := (hs.isCanonical isCanonical_empty).consistent
    exact refuses_of_addDimacs haccepting ht herror

/-- One of the numbers has been a name before, and the numerals have signs, zeros in front, an
underscore and a digit of another script. Of a second file the last clause is empty. -/
theorem standFor_of_load_after_names :
    let t := FileTree.mk [(["f.cnf"], "+0\u0663_0 -07\n0 -30 007 0".toUTF8),
      (["g.cnf"], "1 0 0".toUTF8)] []
    let s := empty.performAll t.toFiles [.addText ["30 ~A"]]
    let grown := (s.table.encodeIntegers [[30, -7], [-30, 7]]).1
    grown.names = ["30", "A", "7"] ∧
      grown.StandFor [[⟨0⟩, ⟨5⟩], [⟨1⟩, ⟨4⟩]] [[30, -7], [-30, 7]] ∧
      (s.addDimacs t.toFiles "f.cnf").2.result = .ok () ∧
      Refuses t "g.cnf" (.emptyClause "cannot add an empty clause") := by
  intro t s grown
  have hs : Reaches (fun _ => True) .empty s := Reaches.refl.performAll _ fun _ _ => trivial
  have haccepting : s.stage = .accepting := by decide +kernel
  have hload : (Dimacs.load t.toFiles "f.cnf").result = .ok [[30, -7], [-30, 7]] := by
    decide +kernel
  obtain ⟨hloaded, hrefused⟩ := standFor_of_load
  obtain ⟨htables, hsessions⟩ := hloaded t.toFiles "f.cnf" _ hload
  obtain ⟨cs, hcs, hstandFor⟩ := htables s.table
  have hencoded : (s.table.encodeIntegers [[30, -7], [-30, 7]]).2 =
      .ok [[⟨0⟩, ⟨5⟩], [⟨1⟩, ⟨4⟩]] := by decide +kernel
  obtain rfl := Except.ok.inj (hencoded.symm.trans hcs)
  refine ⟨by decide +kernel, hstandFor (hs.isCanonical isCanonical_empty).consistent, ?_, ?_⟩
  · rw [hsessions s hs haccepting]
    decide
  · have hempty : (s.addDimacs t.toFiles "g.cnf").2.result =
        .error (.emptyClause "cannot add an empty clause") := by decide +kernel
    exact (hrefused t "g.cnf" s _ hs haccepting hempty).resolve_right fun h => nomatch h.1

/-- A path that holds the character NUL is refused for none of these reasons. -/
theorem exists_error_not_refuses :
    let t := FileTree.mk [] []
    ∃ e, (empty.addDimacs t.toFiles "a\x00").2.result = .error e ∧ ¬Refuses t "a\x00" e := by
  intro t
  have hnul : (empty.addDimacs t.toFiles "a\x00").2.result = .error .nulInPath := by
    decide +kernel
  exact ⟨_, hnul, fun h => nomatch h⟩

end CnfSolver.Session
