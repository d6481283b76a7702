import CnfSolver.Proofs.Dimacs.Layout
import CnfSolver.Proofs.Numeral
import CnfSolver.Proofs.Text.Utf8
import CnfSolver.Proofs.Traversal
import Mathlib.Data.List.Forall2
import Mathlib.Tactic.Convert

/-!
# Loading what is written

A file of clauses lists their numbers with a zero behind each clause, spells every number as a
token, and lays the tokens out on lines. However this is done, loading the file gives the clauses.
-/

namespace CnfSolver.Dimacs

open Numeral (Spells)

/-- The numbers of the clauses with a zero behind each. The last zero may be missing, unless it
stands for an empty clause. -/
inductive Lists : List (List Int) → List Int → Prop
  | nil : Lists [] []
  | unclosed {clause : List Int} (hne : clause ≠ []) : Lists [clause] clause
  | closed {clause : List Int} {clauses : List (List Int)} {values : List Int}
      (h : Lists clauses values) : Lists (clause :: clauses) (clause ++ 0 :: values)

inductive IsTextOf (clauses : List (List Int)) (text : List Char) : Prop
  | intro {values : List Int} {tokens : List (List Char)} (hvalues : Lists clauses values)
      (htokens : List.Forall₂ Spells values tokens) (hlayout : LaysOut tokens text) :
      IsTextOf clauses text

/-! ## Cutting at the zeros -/

theorem clausesOf_append {clause : List Int} (hclause : ∀ v ∈ clause, v ≠ 0) (values : List Int) :
    clausesOf (clause ++ 0 :: values) = clause :: clausesOf values := by
  have hzero : ∀ v ∈ clause, (v == 0) = false := fun v hv => beq_false_of_ne (hclause v hv)
  have hne := List.splitOnP_ne_nil (· == 0) values
  rw [clausesOf, List.splitOnP_append_cons_of_forall_mem hzero 0 rfl, clausesOf]
  rw [List.getLast?_cons_of_ne_nil hne, List.dropLast_cons_of_ne_nil hne]
  split <;> rfl

theorem clausesOf_of_ne_nil {clause : List Int} (hclause : ∀ v ∈ clause, v ≠ 0)
    (hne : clause ≠ []) : clausesOf clause = [clause] := by
  have hzero : ∀ v ∈ clause, (v == 0) = false := fun v hv => beq_false_of_ne (hclause v hv)
  rw [clausesOf, List.splitOnP_eq_singleton hzero]
  simp [hne]

theorem Lists.clausesOf_eq {clauses : List (List Int)} {values : List Int}
    (h : Lists clauses values) (hclauses : ∀ clause ∈ clauses, ∀ v ∈ clause, v ≠ 0) :
    clausesOf values = clauses := by
  induction h with
  | nil => rfl
  | unclosed hne => exact clausesOf_of_ne_nil (hclauses _ List.mem_cons_self) hne
  | closed _ ih =>
      obtain ⟨hfirst, hrest⟩ := List.forall_mem_cons.1 hclauses
      rw [clausesOf_append hfirst, ih hrest]

/-! ## Reading the tokens -/

theorem isPlain_cons {c : Char} (hc : c ≠ '%' ∧ c ≠ 'c' ∧ c ≠ 'p') (cs : List Char) :
    IsPlain (c :: cs) := by
  obtain ⟨hpercent, hcomment, hheader⟩ := hc
  refine ⟨by simpa using hpercent, ?_⟩
  simp [isSkipped, isHeader, hcomment, hheader]

theorem isPlain_of_spells {v : Int} {token : List Char} (h : Spells v token) : IsPlain token := by
  cases h with
  | unsigned _ h =>
      obtain ⟨c, cs, rfl⟩ := List.exists_cons_of_ne_nil h.ne_nil
      have hdigit := h.isDigit c List.mem_cons_self
      apply isPlain_cons
      refine ⟨?_, ?_, ?_⟩ <;>
        · rintro rfl
          exact absurd hdigit (by decide)
  | plus _ _ => exact isPlain_cons (by decide) _
  | minus _ _ => exact isPlain_cons (by decide) _

theorem forall_isPlain {values : List Int} {tokens : List (List Char)}
    (h : List.Forall₂ Spells values tokens) : ∀ token ∈ tokens, IsPlain token := by
  induction h with
  | nil => exact List.forall_mem_nil _
  | cons hfirst _ ih => exact List.forall_mem_cons.2 ⟨isPlain_of_spells hfirst, ih⟩

theorem readToken_of_spells {v : Int} {token : List Char} (h : Spells v token) (path : String) :
    readToken path token = .ok v := by
  rw [readToken, h.read?_eq]

theorem mapM_readToken {values : List Int} {tokens : List (List Char)}
    (h : List.Forall₂ Spells values tokens) (path : String) :
    tokens.mapM (readToken path) = .ok values :=
  mapM_of_forall₂ (h.flip.imp fun _ _ hspells => readToken_of_spells hspells path)

theorem read_of_isTextOf {clauses : List (List Int)} {text : List Char}
    (h : IsTextOf clauses text) (hclauses : ∀ clause ∈ clauses, ∀ v ∈ clause, v ≠ 0)
    (path : String) : read path text = .ok clauses := by
  obtain ⟨hvalues, htokens, hlayout⟩ := h
  rw [read, hlayout.tokens_eq (forall_isPlain htokens), mapM_readToken htokens]
  exact congrArg Except.ok (hvalues.clausesOf_eq hclauses)

/-! ## Loading a file -/

theorem load_of_known {files : Files} {path : String} {known text : List Char}
    (hknown : files.text endsEarly path = .ok known) (hbegins : known <+: text)
    (hall : endsEarly known = true ∨ known = text) :
    load files path = ⟨[], headers path text, read path text⟩ := by
  have hdata : dataLines text = dataLines known := by
    rcases hall with hends | rfl
    · obtain ⟨rest, rfl⟩ := hbegins
      exact dataLines_append hends rest
    · rfl
  rw [load, hknown]
  simp only [headers, read, tokens, hdata]

/-- A file of text is loaded with all that its text holds, also where it is not read to its end. -/
theorem load_of_read {files : Files} {path : String} {s : String}
    (hfile : files.read path = .ok s.toUTF8) :
    load files path = ⟨[], headers path s.toList, read path s.toList⟩ := by
  obtain ⟨known, hknown, hbegins, hall⟩ := Text.exists_read?_toUTF8 endsEarly s
  apply load_of_known _ hbegins hall
  rw [Files.text, hfile]
  simp only [hknown]

/-- Behind the piece that makes the end of the data known, a file may hold any bytes. -/
theorem load_of_read_append {files : Files} {path : String} {s : String} {n : Nat}
    {rest : ByteArray} (hpieces : s.toUTF8.size = n * Text.pieceSize)
    (hends : endsEarly s.toList = true) (hfile : files.read path = .ok (s.toUTF8 ++ rest)) :
    load files path = ⟨[], headers path s.toList, read path s.toList⟩ := by
  obtain ⟨known, hknown, hbegins, hall⟩ := Text.exists_read?_toUTF8_append hpieces hends rest
  apply load_of_known _ hbegins (.inl hall)
  rw [Files.text, hfile]
  simp only [hknown]

/-- A file whose text lists clauses of numbers other than zero, in whatever layout, is loaded as
just these clauses. -/
theorem load_of_isTextOf {clauses : List (List Int)} {text : List Char}
    (hclauses : ∀ clause ∈ clauses, ∀ v ∈ clause, v ≠ 0) (htext : IsTextOf clauses text)
    {files : Files} {path : String} (hfile : files.read path = .ok (String.ofList text).toUTF8) :
    (load files path).result = .ok clauses := by
  rw [load_of_read hfile, String.toList_ofList]
  exact read_of_isTextOf htext hclauses path

/-- A clause goes on behind a header, two zeros are written otherwise, and the last clause is
empty. -/
theorem load_of_isTextOf_scattered :
    let text := "c x\r\n 1\t-002 \rp cnf\n\n+00 3\n0 -0\r\n% 9 x"
    let files := (FileTree.mk [(["f.cnf"], text.toUTF8)] []).toFiles
    IsTextOf [[1, -2], [3], []] text.toList ∧
      (load files "f.cnf").result = .ok [[1, -2], [3], []] := by
  intro text files
  -- the lines from the last one up
  have hstop : LaysOut [] ('%' :: " 9 x".toList) := .stop _
  have hlast : IsLine [['0'], ['-', '0']] "0 -0".toList :=
    .data (by decide +kernel) (by decide +kernel)
  have hzero : IsLine [['+', '0', '0'], ['3']] "+00 3".toList :=
    .data (by decide +kernel) (by decide +kernel)
  have hblank : IsLine [] [] := .data (by decide) (by decide +kernel)
  have hheader : IsLine [] ([] ++ 'p' :: " cnf".toList) :=
    .skipped (by decide +kernel) (List.forall_mem_nil _) (.inr rfl)
  have hfirst : IsLine [['1'], ['-', '0', '0', '2']] " 1\t-002 ".toList :=
    .data (by decide +kernel) (by decide +kernel)
  have hcomment : IsLine [] ([] ++ 'c' :: " x".toList) :=
    .skipped (by decide +kernel) (List.forall_mem_nil _) (.inl rfl)
  have hlayout := LaysOut.line hcomment .crlf <| .line hfirst .cr <| .line hheader .lf <|
    .line hblank .lf <| .line hzero .lf <| .line hlast .crlf hstop
  have htokens : List.Forall₂ Spells [1, -2, 0, 3, 0, 0]
      [['1'], ['-', '0', '0', '2'], ['+', '0', '0'], ['3'], ['0'], ['-', '0']] :=
    .cons (.unsigned (by decide) (by decide)) <| .cons (.minus (by decide) (by decide)) <|
      .cons (.plus (by decide) (by decide)) <| .cons (.unsigned (by decide) (by decide)) <|
      .cons (.unsigned (by decide) (by decide)) <| .cons (.minus (by decide) (by decide)) .nil
  have htext : IsTextOf [[1, -2], [3], []] text.toList := by
    refine .intro (.closed (.closed (.closed .nil))) htokens ?_
    convert hlayout using 1
    · rfl
    · decide +kernel
  have hfile : files.read "f.cnf" = .ok (String.ofList text.toList).toUTF8 := by
    rw [String.ofList_toList]
    decide +kernel
  exact ⟨htext, load_of_isTextOf (by decide) htext hfile⟩

end CnfSolver.Dimacs
