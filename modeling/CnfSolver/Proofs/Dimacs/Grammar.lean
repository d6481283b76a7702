import CnfSolver.Proofs.Dimacs.Contents
import CnfSolver.Proofs.Numeral.Grammar
import Mathlib.Data.List.TakeWhile

/-!
# The grammar of DIMACS files

Which texts are files of clauses, and of which, said without the reader. The lines that count hold
tokens, each token is a numeral, and the numbers are those of the clauses with a zero behind each,
of which the last may be missing. Any other text has a first token that is no numeral.
-/

namespace CnfSolver.Dimacs

open Numeral (IsNumeralOf)

def IsRemark (line : List Char) : Prop :=
  line.find? (fun c => !Text.isBlank c) = some 'c' ∨
    line.find? (fun c => !Text.isBlank c) = some 'p'

instance : DecidablePred IsRemark := fun _ => inferInstanceAs (Decidable (_ ∨ _))

/-- The lines before the first that starts with a `%`, without the remarks. -/
def countingLines (text : List Char) : List (List Char) :=
  ((lines text).takeWhile fun line => line.head? != some '%').filter fun line => ¬IsRemark line

def countingTokens (text : List Char) : List (List Char) := (countingLines text).flatMap Text.words

def withZeros (clauses : List (List Int)) : List Int := clauses.flatMap (· ++ [0])

/-- No clause has a zero, and the numbers are the clauses with a zero behind each. The very last
zero may be missing if the last clause is not empty. -/
structure Groups (clauses : List (List Int)) (values : List Int) : Prop where
  ne_zero : ∀ clause ∈ clauses, ∀ v ∈ clause, v ≠ 0
  values_eq : values = withZeros clauses ∨
    (∃ last ∈ clauses.getLast?, last ≠ []) ∧ values = (withZeros clauses).dropLast

/-! ## The lines that count -/

theorem head?_strip_eq (line : List Char) :
    (Text.strip line).head? = line.find? fun c => !Text.isBlank c := by
  cases hfind : line.find? fun c => !Text.isBlank c with
  | none =>
      have hblank : ∀ c ∈ line, Text.isBlank c = true := by simpa using hfind
      have hdrop : line.dropWhile Text.isBlank = [] := List.dropWhile_eq_nil_iff.2 hblank
      rw [Text.strip, hdrop]
      rfl
  | some c =>
      obtain ⟨hc, blanks, rest, rfl, hblanks⟩ := List.find?_eq_some_iff_append.1 hfind
      exact Text.head?_strip (by simpa using hblanks) (by simpa using hc) rest

theorem isSkipped_strip_iff (line : List Char) :
    isSkipped (Text.strip line) = true ↔ IsRemark line := by
  rw [isSkipped, isHeader, head?_strip_eq, IsRemark, Bool.or_eq_true, beq_iff_eq, beq_iff_eq,
    Or.comm]

theorem flatMap_lineTokens (ls : List (List Char)) :
    ls.flatMap lineTokens = (ls.filter fun line => ¬IsRemark line).flatMap Text.words := by
  induction ls with
  | nil => rfl
  | cons line ls ih =>
      rw [List.flatMap_cons, ih, lineTokens]
      by_cases hremark : IsRemark line
      · rw [List.filter_cons_of_neg (by simpa using hremark),
          if_pos ((isSkipped_strip_iff line).2 hremark), List.nil_append]
      · rw [List.filter_cons_of_pos (by simpa using hremark), List.flatMap_cons,
          if_neg fun h => hremark ((isSkipped_strip_iff line).1 h)]

theorem tokens_eq_countingTokens (text : List Char) : tokens text = countingTokens text := by
  rw [tokens_eq, flatMap_lineTokens, countingTokens, countingLines]

/-! ## Numbers and their clauses -/

variable {clauses more : List (List Int)} {values : List Int}

theorem withZeros_cons (clause : List Int) (clauses : List (List Int)) :
    withZeros (clause :: clauses) = clause ++ 0 :: withZeros clauses := by
  rw [withZeros, List.flatMap_cons, List.append_assoc, List.singleton_append, withZeros]

theorem Lists.append (h : Lists more values) (clauses : List (List Int)) :
    Lists (clauses ++ more) (withZeros clauses ++ values) := by
  induction clauses with
  | nil => exact h
  | cons clause clauses ih =>
      rw [withZeros_cons, List.append_assoc]
      exact .closed ih

theorem Groups.lists (h : Groups clauses values) : Lists clauses values := by
  rcases h.values_eq with rfl | ⟨⟨last, hlast, hne⟩, rfl⟩
  · simpa using Lists.nil.append clauses
  · obtain ⟨before, rfl⟩ := List.getLast?_eq_some_iff.1 hlast
    have hvalues : (withZeros (before ++ [last])).dropLast = withZeros before ++ last := by
      rw [withZeros, List.flatMap_append, List.flatMap_singleton, ← List.append_assoc,
        List.dropLast_concat, withZeros]
    rw [hvalues]
    exact (Lists.unclosed hne).append before

theorem Lists.values_eq (h : Lists clauses values) :
    values = withZeros clauses ∨
      (∃ last ∈ clauses.getLast?, last ≠ []) ∧ values = (withZeros clauses).dropLast := by
  induction h with
  | nil => exact .inl rfl
  | @unclosed clause hne =>
      refine .inr ⟨⟨clause, rfl, hne⟩, ?_⟩
      rw [withZeros, List.flatMap_singleton, List.dropLast_concat]
  | @closed clause clauses values _ ih =>
      rw [withZeros_cons]
      rcases ih with rfl | ⟨⟨last, hlast, hne⟩, rfl⟩
      · exact .inl rfl
      · obtain ⟨before, rfl⟩ := List.getLast?_eq_some_iff.1 hlast
        have hcons : withZeros (before ++ [last]) ≠ [] := by simp [withZeros]
        refine .inr ⟨⟨last, ?_, hne⟩, ?_⟩
        · rw [← List.cons_append]
          exact List.getLast?_concat
        · rw [List.dropLast_append_of_ne_nil (List.cons_ne_nil _ _),
            List.dropLast_cons_of_ne_nil hcons]

theorem lists_clausesOf (values : List Int) : Lists (clausesOf values) values := by
  induction hlength : values.length using Nat.strongRecOn generalizing values with
  | ind n ih =>
      by_cases hzero : 0 ∈ values
      · obtain ⟨clause, rest, rfl, hclause⟩ := List.eq_append_cons_of_mem hzero
        have hne : ∀ v ∈ clause, v ≠ 0 := fun v hv heq => hclause (heq ▸ hv)
        have hshorter : rest.length < n := by
          rw [← hlength, List.length_append, List.length_cons]
          omega
        rw [clausesOf_append hne]
        exact .closed (ih rest.length hshorter rest rfl)
      · have hne : ∀ v ∈ values, v ≠ 0 := fun v hv heq => hzero (heq ▸ hv)
        by_cases hnil : values = []
        · rw [hnil]
          exact .nil
        · rw [clausesOf_of_ne_nil hne hnil]
          exact .unclosed hnil

/-- Cutting at the zeros is the only way to read numbers as clauses. -/
theorem groups_iff : Groups clauses values ↔ clauses = clausesOf values := by
  constructor
  · exact fun h => (h.lists.clausesOf_eq h.ne_zero).symm
  · rintro rfl
    exact ⟨fun clause hclause v hv => (mem_of_mem_clausesOf hclause v hv).2,
      (lists_clausesOf values).values_eq⟩

/-! ## Texts -/

variable {path : String} {text token : List Char} {v : Int} {e : Error}

theorem readToken_eq_ok_iff : readToken path token = .ok v ↔ IsNumeralOf v token := by
  rw [← Numeral.read?_eq_some_iff, readToken]
  split
  · next hread => rw [hread, Except.ok.injEq, Option.some.injEq]
  · next hread => simp [hread]

theorem readToken_eq_error_iff :
    readToken path token = .error e ↔
      (¬∃ v, IsNumeralOf v token) ∧ e = .badLiteral (String.ofList token) path := by
  rw [← Numeral.read?_eq_none_iff, readToken]
  split
  · next hread => simp [hread]
  · next hread => simp [hread, eq_comm]

theorem read_of_forall₂ (h : List.Forall₂ IsNumeralOf values (countingTokens text)) :
    read path text = .ok (clausesOf values) := by
  have hvalues : (tokens text).mapM (readToken path) = .ok values := by
    rw [mapM_eq_ok_iff, tokens_eq_countingTokens]
    exact h.flip.imp fun _ _ => readToken_eq_ok_iff.2
  rw [read, hvalues]

theorem read_eq_error_iff :
    read path text = .error e ↔
      ∃ before token after, countingTokens text = before ++ token :: after ∧
        (∀ t ∈ before, ∃ v, IsNumeralOf v t) ∧ (¬∃ v, IsNumeralOf v token) ∧
        e = .badLiteral (String.ofList token) path := by
  have hread : read path text = .error e ↔ (tokens text).mapM (readToken path) = .error e := by
    rw [read]
    split
    · next hvalues => simp [hvalues]
    · next herror => simp [herror]
  rw [hread, mapM_eq_error_iff, tokens_eq_countingTokens]
  simp only [readToken_eq_ok_iff, readToken_eq_error_iff]

/-- Loading a file of text fails just when some token of the lines that count is no numeral, and the
first such token says with what. Otherwise it gives the only clauses that have the numbers of the
tokens. Remarks and what is behind a `%` do not matter. -/
theorem load_of_text {files : Files} {s : String} (hfile : files.read path = .ok s.toUTF8) :
    (∀ e, (load files path).result = .error e ↔
      ∃ before token after, countingTokens s.toList = before ++ token :: after ∧
        (∀ t ∈ before, ∃ v, IsNumeralOf v t) ∧ (¬∃ v, IsNumeralOf v token) ∧
        e = .badLiteral (String.ofList token) path) ∧
    (∀ values, List.Forall₂ IsNumeralOf values (countingTokens s.toList) →
      ∃ clauses, (load files path).result = .ok clauses ∧
        ∀ clauses', Groups clauses' values ↔ clauses' = clauses) ∧
    ∀ (files' : Files) (s' : String), files'.read path = .ok s'.toUTF8 →
      countingLines s'.toList = countingLines s.toList →
      (load files' path).result = (load files path).result := by
  have hload : ∀ (files : Files) (s : String), files.read path = .ok s.toUTF8 →
      (load files path).result = read path s.toList := fun files s hfile => by
    rw [load_of_read hfile]
  refine ⟨fun e => ?_, fun values hvalues => ?_, fun files' s' hfile' hlines => ?_⟩
  · rw [hload files s hfile, read_eq_error_iff]
  · exact ⟨clausesOf values, (hload files s hfile).trans (read_of_forall₂ hvalues),
      fun _ => groups_iff⟩
  · rw [hload files s hfile, hload files' s' hfile', read, read, tokens_eq_countingTokens,
      tokens_eq_countingTokens, countingTokens, countingTokens, hlines]

/-- In the one file a digit is of another script, the last zero is missing, and what does not count
is no numeral. In the other a numeral comes before three tokens that are none. -/
theorem load_of_text_twice :
    let good := "c x\n 1 \u0663_0 0\r\tp y\n-2 +03\n%z"
    let bad := "1 -_0 2\n3 + 4__0 0"
    let files := (FileTree.mk [(["g.cnf"], good.toUTF8), (["b.cnf"], bad.toUTF8)] []).toFiles
    (load files "g.cnf").result = .ok [[1, 30], [-2, 3]] ∧
      (load files "b.cnf").result = .error (.badLiteral "-_0" "b.cnf") := by
  intro good bad files
  have hgood : files.read "g.cnf" = .ok good.toUTF8 := by decide +kernel
  have hbad : files.read "b.cnf" = .ok bad.toUTF8 := by decide +kernel
  constructor
  · have hvalues : List.Forall₂ IsNumeralOf [1, 30, 0, -2, 3] (countingTokens good.toList) := by
      decide +kernel
    have hgroups : Groups [[1, 30], [-2, 3]] [1, 30, 0, -2, 3] :=
      ⟨by decide, .inr ⟨⟨[-2, 3], rfl, by decide⟩, rfl⟩⟩
    obtain ⟨clauses, hok, hunique⟩ := (load_of_text hgood).2.1 _ hvalues
    rw [hok, (hunique _).1 hgroups]
  · refine ((load_of_text hbad).1 _).2 ⟨[['1']], "-_0".toList, ?_⟩
    refine ⟨[['2'], ['3'], ['+'], "4__0".toList, ['0']], ?_, ?_, ?_, ?_⟩
    · decide +kernel
    · decide +kernel
    · decide +kernel
    · rw [String.ofList_toList]

end CnfSolver.Dimacs
