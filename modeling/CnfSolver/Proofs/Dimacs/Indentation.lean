import CnfSolver.Proofs.Dimacs.Grammar

/-!
# Indented lines

Spaces and tabs at the ends of lines leave the words of every line and the choice of the lines to be
skipped as they are. Only a `%` has to be the very first character of its line: behind blanks it
does not end the file, but is part of a token, and such a token is no numeral.
-/

namespace CnfSolver.Dimacs

open Numeral (IsNumeralOf)

def IsIndent (cs : List Char) : Prop := ∀ c ∈ cs, c = ' ' ∨ c = '\t'

instance : DecidablePred IsIndent := fun cs => List.decidableBAll (fun c => c = ' ' ∨ c = '\t') cs

def Indents (line line' : List Char) : Prop :=
  ∃ front back, IsIndent front ∧ IsIndent back ∧ line' = front ++ line ++ back

/-- The texts are the same line by line, apart from spaces and tabs added in the second one. -/
def Reindents (text text' : List Char) : Prop := List.Forall₂ Indents (lines text) (lines text')

def isStop (line : List Char) : Bool := line.head? == some '%'

def stopLine (text : List Char) : Nat := (lines text).findIdx isStop

/-! ## One line -/

variable {line line' : List Char}

theorem IsIndent.isBlank {cs : List Char} (h : IsIndent cs) : ∀ c ∈ cs, Text.isBlank c = true := by
  intro c hc
  rcases h c hc with rfl | rfl <;> decide

theorem Indents.words_eq (h : Indents line line') : Text.words line' = Text.words line := by
  obtain ⟨front, back, hfront, hback, rfl⟩ := h
  rw [Text.words_append_blanks hback.isBlank, Text.words_blanks_append hfront.isBlank]

theorem Indents.isRemark_iff (h : Indents line line') : IsRemark line' ↔ IsRemark line := by
  obtain ⟨front, back, hfront, hback, rfl⟩ := h
  have hnone : ∀ {cs : List Char}, IsIndent cs → cs.find? (fun c => !Text.isBlank c) = none := by
    intro cs hcs
    rw [List.find?_eq_none]
    intro c hc
    simp [hcs.isBlank c hc]
  have hfind : (front ++ line ++ back).find? (fun c => !Text.isBlank c) =
      line.find? fun c => !Text.isBlank c := by
    rw [List.find?_append, List.find?_append, hnone hfront, hnone hback, Option.none_or,
      Option.or_none]
  rw [IsRemark, IsRemark, hfind]

theorem Indents.lineTokens_eq (h : Indents line line') : lineTokens line' = lineTokens line := by
  have hskipped : isSkipped (Text.strip line') = isSkipped (Text.strip line) := by
    rw [Bool.eq_iff_iff, isSkipped_strip_iff, isSkipped_strip_iff, h.isRemark_iff]
  rw [lineTokens, lineTokens, hskipped, h.words_eq]

theorem Indents.isStop_of (h : Indents line line') (hstop : isStop line' = true) :
    isStop line = true := by
  obtain ⟨front, back, hfront, hback, rfl⟩ := h
  have hpercent : ∀ {cs : List Char}, IsIndent cs → cs.head? ≠ some '%' := by
    intro cs hcs hhead
    have hmem := hcs '%' (List.mem_of_mem_head? hhead)
    exact absurd hmem (by decide)
  cases front with
  | cons c front =>
      have hhead : (c :: front).head? = some '%' := by simpa [isStop] using hstop
      exact absurd hhead (hpercent hfront)
  | nil =>
      cases line with
      | cons c line => simpa [isStop] using hstop
      | nil => exact absurd (by simpa [isStop] using hstop) (hpercent hback)

theorem exists_lineTokens_of_isStop (h : isStop line = true) :
    ∃ rest more, lineTokens line = ('%' :: rest) :: more := by
  obtain ⟨cs, rfl⟩ : ∃ cs, line = '%' :: cs := List.head?_eq_some_iff.1 (by simpa [isStop] using h)
  have hdata : ¬IsRemark ('%' :: cs) := by
    have hfind : ('%' :: cs).find? (fun c => !Text.isBlank c) = some '%' :=
      List.find?_cons_of_pos (by decide)
    rw [IsRemark, hfind]
    decide
  have hskipped : isSkipped (Text.strip ('%' :: cs)) = false := by
    rw [← Bool.not_eq_true, isSkipped_strip_iff]
    exact hdata
  rw [lineTokens, hskipped, if_neg Bool.false_ne_true]
  exact Text.exists_words_cons (by decide) cs

/-! ## All lines -/

def tokensOf (ls : List (List Char)) : List (List Char) :=
  (ls.takeWhile fun line => !isStop line).flatMap lineTokens

theorem tokensOf_cons_of_isStop (h : isStop line = true) (ls : List (List Char)) :
    tokensOf (line :: ls) = [] := by
  rw [tokensOf, List.takeWhile_cons_of_neg (by simp [h])]
  rfl

theorem tokensOf_cons (h : isStop line = false) (ls : List (List Char)) :
    tokensOf (line :: ls) = lineTokens line ++ tokensOf ls := by
  rw [tokensOf, List.takeWhile_cons_of_pos (by simp [h]), List.flatMap_cons, tokensOf]

theorem tokens_eq_tokensOf (text : List Char) : tokens text = tokensOf (lines text) :=
  tokens_eq text

/-- The tokens are the same if the file ends at the same line. Otherwise its line with the `%` is
read as well, after the same tokens. -/
theorem tokensOf_cases {ls ls' : List (List Char)} (h : List.Forall₂ Indents ls ls') :
    (ls'.findIdx isStop = ls.findIdx isStop ∧ tokensOf ls' = tokensOf ls) ∨
    (ls'.findIdx isStop ≠ ls.findIdx isStop ∧
      ∃ rest more, tokensOf ls' = tokensOf ls ++ ('%' :: rest) :: more) := by
  induction h with
  | nil => exact .inl ⟨rfl, rfl⟩
  | @cons line line' ls ls' hline _ ih =>
      rw [List.findIdx_cons, List.findIdx_cons]
      cases hstop : isStop line with
      | true =>
          rw [tokensOf_cons_of_isStop hstop]
          cases hstop' : isStop line' with
          | true => exact .inl ⟨rfl, tokensOf_cons_of_isStop hstop' ls'⟩
          | false =>
              obtain ⟨rest, more, htokens⟩ := exists_lineTokens_of_isStop hstop
              refine .inr ⟨by simp, rest, more ++ tokensOf ls', ?_⟩
              rw [tokensOf_cons hstop', hline.lineTokens_eq, htokens]
              rfl
      | false =>
          have hstop' : isStop line' = false := by
            rw [← Bool.not_eq_true]
            intro hstop'
            exact absurd (hline.isStop_of hstop') (by simp [hstop])
          rw [hstop', tokensOf_cons hstop, tokensOf_cons hstop', hline.lineTokens_eq]
          rcases ih with ⟨hplace, htokens⟩ | ⟨hplace, rest, more, htokens⟩
          · exact .inl ⟨by simp [hplace], by rw [htokens]⟩
          · refine .inr ⟨by simpa using hplace, rest, more, ?_⟩
            rw [htokens, List.append_assoc]

/-! ## Files -/

variable {path : String} {text text' : List Char}

theorem not_isNumeralOf_percent (v : Int) (rest : List Char) : ¬IsNumeralOf v ('%' :: rest) := by
  intro h
  cases h with
  | unsigned hmagnitude =>
      obtain ⟨ds, hdigits, -⟩ := hmagnitude
      exact hdigits.head?_ne (by decide) rfl

theorem isNumeralOf_of_read {clauses : List (List Int)} (h : read path text = .ok clauses) :
    ∀ token ∈ countingTokens text, ∃ v, IsNumeralOf v token := by
  by_contra hnot
  obtain ⟨before, token, after, htokens, hbefore, htoken⟩ :=
    exists_first_not (by simpa only [not_forall, exists_prop] using hnot)
  have herror : read path text = .error (.badLiteral (String.ofList token) path) :=
    read_eq_error_iff.2 ⟨before, token, after, htokens, hbefore, htoken, rfl⟩
  exact nomatch h.symm.trans herror

theorem read_congr (h : tokens text' = tokens text) : read path text' = read path text := by
  rw [read, read, h]

/-- A bad token behind others counts only if they are all numerals. -/
theorem read_of_more_tokens (path : String) {rest : List Char} {more : List (List Char)}
    (h : tokens text' = tokens text ++ ('%' :: rest) :: more) :
    (∀ e, read path text = .error e → read path text' = .error e) ∧
      ∀ clauses, read path text = .ok clauses →
        read path text' = .error (.badLiteral (String.ofList ('%' :: rest)) path) := by
  rw [tokens_eq_countingTokens, tokens_eq_countingTokens] at h
  constructor
  · intro e herror
    obtain ⟨before, token, after, htokens, hbefore, htoken, rfl⟩ := read_eq_error_iff.1 herror
    apply read_eq_error_iff.2
    refine ⟨before, token, after ++ ('%' :: rest) :: more, ?_, hbefore, htoken, rfl⟩
    rw [h, htokens, List.append_assoc, List.cons_append]
  · intro clauses hok
    apply read_eq_error_iff.2
    refine ⟨countingTokens text, '%' :: rest, more, h, isNumeralOf_of_read hok, ?_, rfl⟩
    rintro ⟨v, hv⟩
    exact not_isNumeralOf_percent v rest hv

/-- Spaces and tabs at the ends of lines do not matter for what a file of text is loaded as, if the
first line that starts with a `%` still does. Otherwise the file fails as before, or with the token
at this `%` if it was loaded before. -/
theorem load_of_reindents {files files' : Files} {s s' : String}
    (hfile : files.read path = .ok s.toUTF8) (hfile' : files'.read path = .ok s'.toUTF8)
    (h : Reindents s.toList s'.toList) :
    (stopLine s'.toList = stopLine s.toList →
      (load files' path).result = (load files path).result) ∧
    (stopLine s'.toList ≠ stopLine s.toList →
      (∀ e, (load files path).result = .error e → (load files' path).result = .error e) ∧
      ∀ clauses, (load files path).result = .ok clauses →
        ∃ token : String, token.toList.head? = some '%' ∧
          (load files' path).result = .error (.badLiteral token path)) := by
  have hload : (load files path).result = read path s.toList := by rw [load_of_read hfile]
  have hload' : (load files' path).result = read path s'.toList := by rw [load_of_read hfile']
  rw [hload, hload']
  rcases tokensOf_cases h with ⟨hplace, htokens⟩ | ⟨hplace, rest, more, htokens⟩
  · rw [← tokens_eq_tokensOf, ← tokens_eq_tokensOf] at htokens
    exact ⟨fun _ => read_congr htokens, fun hne => absurd hplace hne⟩
  · rw [← tokens_eq_tokensOf, ← tokens_eq_tokensOf] at htokens
    obtain ⟨herror, hok⟩ := read_of_more_tokens path htokens
    refine ⟨fun heq => absurd heq hplace, fun _ => ⟨herror, fun clauses hclauses => ?_⟩⟩
    refine ⟨String.ofList ('%' :: rest), ?_, hok clauses hclauses⟩
    rw [String.toList_ofList, List.head?_cons]

/-- Every line has blanks added, a comment and the header too, but not the line with the `%`. -/
theorem load_of_reindents_before_percent :
    let s := "c x\np y\n1 -2\n\n0 3\n%\n z"
    let s' := " c x\n\tp y\t\n 1 -2 \n\t \n  0 3\n% \n\t z "
    let files := (FileTree.mk [(["f.cnf"], s.toUTF8)] []).toFiles
    let files' := (FileTree.mk [(["f.cnf"], s'.toUTF8)] []).toFiles
    Reindents s.toList s'.toList ∧
      (load files' "f.cnf").result = (load files "f.cnf").result ∧
      (load files "f.cnf").result = .ok [[1, -2], [3]] := by
  intro s s' files files'
  have hlines : lines s.toList = ["c x".toList, "p y".toList, "1 -2".toList, [], "0 3".toList,
      "%".toList, " z".toList] := by decide +kernel
  have hlines' : lines s'.toList = [" c x".toList, "\tp y\t".toList, " 1 -2 ".toList, "\t ".toList,
      "  0 3".toList, "% ".toList, "\t z ".toList] := by decide +kernel
  have hreindents : Reindents s.toList s'.toList := by
    rw [Reindents, hlines, hlines']
    refine .cons ⟨[' '], [], ?_⟩ <| .cons ⟨['\t'], ['\t'], ?_⟩ <| .cons ⟨[' '], [' '], ?_⟩ <|
      .cons ⟨['\t'], [' '], ?_⟩ <| .cons ⟨[' ', ' '], [], ?_⟩ <| .cons ⟨[], [' '], ?_⟩ <|
      .cons ⟨['\t'], [' '], ?_⟩ .nil
    all_goals decide +kernel
  have hfile : files.read "f.cnf" = .ok s.toUTF8 := by decide +kernel
  have hfile' : files'.read "f.cnf" = .ok s'.toUTF8 := by decide +kernel
  obtain ⟨hsame, -⟩ := load_of_reindents hfile hfile' hreindents
  exact ⟨hreindents, hsame (by decide +kernel), by decide +kernel⟩

/-- A single space in front of the `%` makes a file fail that was loaded before. -/
theorem load_ne_of_indented_percent :
    let files := (FileTree.mk [(["f.cnf"], "1 0\n%".toUTF8)] []).toFiles
    let files' := (FileTree.mk [(["f.cnf"], "1 0\n %".toUTF8)] []).toFiles
    Reindents "1 0\n%".toList "1 0\n %".toList ∧
      (load files "f.cnf").result = .ok [[1]] ∧
      (load files' "f.cnf").result = .error (.badLiteral "%" "f.cnf") := by
  intro files files'
  have hlines : lines "1 0\n%".toList = ["1 0".toList, "%".toList] := by decide +kernel
  have hlines' : lines "1 0\n %".toList = ["1 0".toList, " %".toList] := by decide +kernel
  refine ⟨?_, by decide +kernel, by decide +kernel⟩
  rw [Reindents, hlines, hlines']
  refine .cons ⟨[], [], ?_⟩ <| .cons ⟨[' '], [], ?_⟩ .nil
  all_goals decide +kernel

end CnfSolver.Dimacs
