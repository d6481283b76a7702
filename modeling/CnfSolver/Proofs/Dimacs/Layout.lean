import CnfSolver.Dimacs
import CnfSolver.Proofs.Text.Words
import Mathlib.Data.List.TakeWhile

/-!
# Tokens laid out on lines

The same tokens can be laid out on lines in many ways: lines may hold any number of them, blank
lines and lines to be skipped may come in between, and behind a line starting with a `%` there may
be anything. All these texts have the same tokens.
-/

namespace CnfSolver.Dimacs

open Text (isBlank Spaced)

inductive IsLineEnd : List Char → Prop
  | lf : IsLineEnd ['\n']
  | crlf : IsLineEnd ['\r', '\n']
  | cr : IsLineEnd ['\r']

def IsOneLine (line : List Char) : Prop := ∀ c ∈ line, c ≠ '\n' ∧ c ≠ '\r'

instance : DecidablePred IsOneLine := fun line =>
  List.decidableBAll (fun c => c ≠ '\n' ∧ c ≠ '\r') line

/-- A line of the tokens, of which there may be none, or a line to be skipped. -/
inductive IsLine : List (List Char) → List Char → Prop
  | data {tokens : List (List Char)} {line : List Char} (hone : IsOneLine line)
      (hspaced : Spaced tokens line) : IsLine tokens line
  | skipped {blanks rest : List Char} {mark : Char} (hone : IsOneLine (blanks ++ mark :: rest))
      (hblanks : ∀ c ∈ blanks, isBlank c = true) (hmark : mark = 'c' ∨ mark = 'p') :
      IsLine [] (blanks ++ mark :: rest)

/-- A text that lays out the tokens on lines. The last line has no line end, or else a `%` is in
its place and anything behind it. -/
inductive LaysOut : List (List Char) → List Char → Prop
  | last {tokens : List (List Char)} {line : List Char} (hline : IsLine tokens line) :
      LaysOut tokens line
  | stop (rest : List Char) : LaysOut [] ('%' :: rest)
  | line {tokens more : List (List Char)} {line lineEnd rest : List Char}
      (hline : IsLine tokens line) (hend : IsLineEnd lineEnd) (hrest : LaysOut more rest) :
      LaysOut (tokens ++ more) (line ++ lineEnd ++ rest)

/-! ## Splitting into lines -/

theorem unifyLineEnds_cons {c : Char} (hc : c ≠ '\r') (rest : List Char) :
    unifyLineEnds (c :: rest) = c :: unifyLineEnds rest := by
  rw [unifyLineEnds]
  · exact fun _ hcr _ => hc hcr
  · exact hc

theorem unifyLineEnds_cr {rest : List Char} (hrest : rest.head? ≠ some '\n') :
    unifyLineEnds ('\r' :: rest) = '\n' :: unifyLineEnds rest := by
  rw [unifyLineEnds]
  rintro cs rfl
  exact hrest rfl

theorem unifyLineEnds_append {line : List Char} (hline : IsOneLine line) (rest : List Char) :
    unifyLineEnds (line ++ rest) = line ++ unifyLineEnds rest := by
  induction line with
  | nil => rfl
  | cons c line ih =>
      obtain ⟨⟨-, hcr⟩, hmore⟩ := List.forall_mem_cons.1 hline
      rw [List.cons_append, unifyLineEnds_cons hcr, ih hmore, List.cons_append]

theorem IsOneLine.not_lf {line : List Char} (hline : IsOneLine line) :
    ∀ c ∈ line, (c == '\n') = false := by
  intro c hc
  simpa using (hline c hc).1

theorem lines_of_isOneLine {line : List Char} (hline : IsOneLine line) : lines line = [line] := by
  have hunify := unifyLineEnds_append hline []
  rw [List.append_nil, unifyLineEnds, List.append_nil] at hunify
  rw [lines, hunify]
  exact List.splitOnP_eq_singleton hline.not_lf

theorem lines_append {line after rest : List Char} (hline : IsOneLine line)
    (hafter : unifyLineEnds after = '\n' :: unifyLineEnds rest) :
    lines (line ++ after) = line :: lines rest := by
  rw [lines, unifyLineEnds_append hline, hafter]
  exact List.splitOnP_append_cons_of_forall_mem hline.not_lf '\n' rfl (unifyLineEnds rest)

/-! ## The tokens of a line -/

def lineTokens (line : List Char) : List (List Char) :=
  if isSkipped (Text.strip line) then [] else Text.words line

theorem flatMap_words_dataLines (ls : List (List Char)) :
    (((ls.map Text.strip).filter fun line => !line.isEmpty).filter fun line =>
      !isSkipped line).flatMap Text.words = ls.flatMap lineTokens := by
  induction ls with
  | nil => rfl
  | cons line ls ih =>
      rw [List.map_cons, List.flatMap_cons, ← ih, lineTokens, ← Text.words_strip line]
      cases hstrip : Text.strip line with
      | nil => rfl
      | cons c rest =>
          cases hskipped : isSkipped (c :: rest) with
          | true => simp [hskipped]
          | false => simp [hskipped]

theorem tokens_eq (text : List Char) :
    tokens text =
      ((lines text).takeWhile fun line => line.head? != some '%').flatMap lineTokens :=
  flatMap_words_dataLines _

theorem tokens_of_isOneLine {line : List Char} (hline : IsOneLine line)
    (hdata : line.head? ≠ some '%') : tokens line = lineTokens line := by
  rw [tokens_eq, lines_of_isOneLine hline, List.takeWhile_cons_of_pos (by simpa using hdata)]
  exact List.append_nil _

theorem tokens_append {line after rest : List Char} (hline : IsOneLine line)
    (hdata : line.head? ≠ some '%') (hafter : unifyLineEnds after = '\n' :: unifyLineEnds rest) :
    tokens (line ++ after) = lineTokens line ++ tokens rest := by
  rw [tokens_eq, tokens_eq, lines_append hline hafter,
    List.takeWhile_cons_of_pos (by simpa using hdata), List.flatMap_cons]

theorem tokens_append_crlf {line : List Char} (hline : IsOneLine line)
    (hdata : line.head? ≠ some '%') (rest : List Char) :
    tokens (line ++ '\r' :: '\n' :: rest) = lineTokens line ++ tokens rest := by
  apply tokens_append hline hdata
  rw [unifyLineEnds]

theorem tokens_cons_lf (rest : List Char) : tokens ('\n' :: rest) = tokens rest := by
  have hempty : IsOneLine [] := List.forall_mem_nil _
  exact tokens_append hempty (by simp) (unifyLineEnds_cons (by decide) rest)

/-- A line feed right behind a carriage return belongs to the line end. If it is taken for an empty
line instead, that makes no difference to the tokens. -/
theorem tokens_append_lineEnd {line lineEnd : List Char} (hline : IsOneLine line)
    (hdata : line.head? ≠ some '%') (hend : IsLineEnd lineEnd) (rest : List Char) :
    tokens (line ++ lineEnd ++ rest) = lineTokens line ++ tokens rest := by
  rw [List.append_assoc]
  cases hend with
  | lf => exact tokens_append hline hdata (unifyLineEnds_cons (by decide) rest)
  | crlf => exact tokens_append_crlf hline hdata rest
  | cr =>
      by_cases hrest : rest.head? = some '\n'
      · obtain ⟨more, rfl⟩ := List.head?_eq_some_iff.1 hrest
        rw [tokens_cons_lf]
        exact tokens_append_crlf hline hdata more
      · exact tokens_append hline hdata (unifyLineEnds_cr hrest)

theorem tokens_percent (rest : List Char) : tokens ('%' :: rest) = [] := by
  obtain ⟨first, more, hlines⟩ := List.exists_cons_of_ne_nil
    (List.splitOnP_ne_nil (· == '\n') (unifyLineEnds rest))
  have hpercent : lines ('%' :: rest) = ('%' :: first) :: more := by
    rw [lines, unifyLineEnds_cons (by decide), List.splitOnP_cons_eq_if_modifyHead, hlines]
    rfl
  rw [tokens_eq, hpercent, List.takeWhile_cons_of_neg (by simp)]
  rfl

/-! ## The tokens of a layout -/

/-- The token does not begin as a line does that ends the file or is skipped. -/
def IsPlain (token : List Char) : Prop := token.head? ≠ some '%' ∧ isSkipped token = false

theorem isSkipped_congr {line line' : List Char} (h : line.head? = line'.head?) :
    isSkipped line = isSkipped line' := by
  rw [isSkipped, isSkipped, isHeader, isHeader, h]

theorem isSkipped_strip {blanks rest : List Char} {c : Char}
    (hblanks : ∀ c ∈ blanks, isBlank c = true) (hc : isBlank c = false) :
    isSkipped (Text.strip (blanks ++ c :: rest)) = isSkipped [c] :=
  isSkipped_congr (Text.head?_strip hblanks hc rest)

theorem head?_blanks_append {blanks rest : List Char} (hblanks : ∀ c ∈ blanks, isBlank c = true)
    (hrest : rest.head? ≠ some '%') : (blanks ++ rest).head? ≠ some '%' := by
  cases blanks with
  | nil => exact hrest
  | cons b blanks =>
      intro h
      obtain rfl : b = '%' := Option.some.inj h
      exact absurd (hblanks '%' List.mem_cons_self) (by decide)

theorem not_isBlank_mark {mark : Char} (hmark : mark = 'c' ∨ mark = 'p') :
    isBlank mark = false := by
  rcases hmark with rfl | rfl <;> decide

namespace IsLine

variable {tokens : List (List Char)} {line : List Char}

theorem isOneLine (h : IsLine tokens line) : IsOneLine line := by
  cases h with
  | data hone _ => exact hone
  | skipped hone _ _ => exact hone

theorem head?_ne (h : IsLine tokens line) (hplain : ∀ token ∈ tokens, IsPlain token) :
    line.head? ≠ some '%' := by
  cases h with
  | data _ hspaced =>
      cases hspaced with
      | nil hblanks =>
          rw [← List.append_nil line]
          exact head?_blanks_append hblanks (by simp)
      | @cons blanks word rest words hblanks hword hend hrest =>
          obtain ⟨c, cs, rfl⟩ := List.exists_cons_of_ne_nil hword.ne_nil
          have hfirst := (hplain (c :: cs) List.mem_cons_self).1
          rw [List.append_assoc]
          exact head?_blanks_append hblanks hfirst
  | skipped _ hblanks hmark =>
      apply head?_blanks_append hblanks
      rcases hmark with rfl | rfl <;> simp

theorem lineTokens_eq (h : IsLine tokens line) (hplain : ∀ token ∈ tokens, IsPlain token) :
    lineTokens line = tokens := by
  unfold lineTokens
  cases h with
  | data _ hspaced =>
      rw [hspaced.words_eq]
      cases hspaced with
      | nil => exact ite_self _
      | @cons blanks word rest words hblanks hword hend hrest =>
          obtain ⟨c, cs, rfl⟩ := List.exists_cons_of_ne_nil hword.ne_nil
          have hc : isBlank c = false := hword.not_blank c List.mem_cons_self
          have hplain' : isSkipped [c] = false := (hplain (c :: cs) List.mem_cons_self).2
          rw [List.append_assoc, List.cons_append, isSkipped_strip hblanks hc, hplain',
            if_neg Bool.false_ne_true]
  | @skipped blanks rest mark _ hblanks hmark =>
      have hskipped : isSkipped [mark] = true := by
        rcases hmark with rfl | rfl <;> rfl
      rw [isSkipped_strip hblanks (not_isBlank_mark hmark), hskipped, if_pos rfl]

end IsLine

theorem LaysOut.tokens_eq {ts : List (List Char)} {text : List Char} (h : LaysOut ts text)
    (hplain : ∀ token ∈ ts, IsPlain token) : tokens text = ts := by
  induction h with
  | last hline =>
      rw [tokens_of_isOneLine hline.isOneLine (hline.head?_ne hplain), hline.lineTokens_eq hplain]
  | stop rest => exact tokens_percent rest
  | line hline hend _ ih =>
      obtain ⟨hfirst, hmore⟩ := List.forall_mem_append.1 hplain
      rw [tokens_append_lineEnd hline.isOneLine (hline.head?_ne hfirst) hend,
        hline.lineTokens_eq hfirst, ih hmore]

/-! ## The end of the data -/

theorem unifyLineEnds_append_of_getLast? {text rest : List Char}
    (h : text.getLast? = some '\r' → rest.head? ≠ some '\n') :
    unifyLineEnds (text ++ rest) = unifyLineEnds text ++ unifyLineEnds rest := by
  fun_induction unifyLineEnds text with
  | case1 => rfl
  | case2 cs ih =>
      rw [List.cons_append, List.cons_append, unifyLineEnds, ih, List.cons_append]
      intro hlast
      exact h (by simp [List.getLast?_cons, hlast])
  | case3 cs hlf ih =>
      rw [List.cons_append, unifyLineEnds_cr, ih, List.cons_append]
      · exact fun hlast => h (by simp [List.getLast?_cons, hlast])
      · cases cs with
        | nil => exact h rfl
        | cons c cs =>
            intro hhead
            obtain rfl := Option.some.inj hhead
            exact hlf cs rfl
  | case4 c cs hlf hcr ih =>
      rw [List.cons_append, unifyLineEnds_cons hcr, ih, List.cons_append]
      exact fun hlast => h (by simp [List.getLast?_cons, hlast])

theorem isPrefix_dropLast_splitOnP {α : Type} (p : α → Bool) (xs ys : List α) :
    (xs.splitOnP p).dropLast <+: (xs ++ ys).splitOnP p := by
  induction xs with
  | nil => exact List.nil_prefix
  | cons x xs ih =>
      have hne := List.splitOnP_ne_nil p xs
      rw [List.cons_append, List.splitOnP_cons_eq_if_modifyHead,
        List.splitOnP_cons_eq_if_modifyHead]
      split
      · rw [List.dropLast_cons_of_ne_nil hne]
        exact List.cons_prefix_cons.2 ⟨rfl, ih⟩
      · obtain ⟨first, more, hparts⟩ := List.exists_cons_of_ne_nil hne
        rw [hparts] at ih ⊢
        cases more with
        | nil => exact List.nil_prefix
        | cons second more =>
            obtain ⟨first', more', hparts'⟩ :=
              List.exists_cons_of_ne_nil (List.splitOnP_ne_nil p (xs ++ ys))
            rw [hparts'] at ih ⊢
            obtain ⟨rfl, hmore⟩ := List.cons_prefix_cons.1 ih
            exact List.cons_prefix_cons.2 ⟨rfl, hmore⟩

theorem takeWhile_eq_of_isPrefix {α : Type} {p : α → Bool} {xs ys : List α} (h : xs <+: ys)
    (hany : ∃ x ∈ xs, p x = false) : ys.takeWhile p = xs.takeWhile p := by
  obtain ⟨rest, rfl⟩ := h
  obtain ⟨x, hx, hp⟩ := hany
  rw [List.takeWhile_append, if_neg]
  intro hlen
  have hall := List.takeWhile_eq_self_iff.1 ((List.takeWhile_prefix p).eq_of_length hlen)
  rw [hall x hx] at hp
  exact nomatch hp

theorem isPrefix_dropLast_lines {known rest : List Char}
    (h : known.getLast? = some '\r' → rest.head? ≠ some '\n') :
    (lines known).dropLast <+: lines (known ++ rest) := by
  rw [lines, lines, unifyLineEnds_append_of_getLast? h]
  exact isPrefix_dropLast_splitOnP _ _ _

/-- The lines that are complete once the end of the data is known. A carriage return behind them
is no line end yet. -/
theorem exists_known_of_endsEarly {text : List Char} (h : endsEarly text = true) :
    ∃ known tail, text = known ++ tail ∧
      (∀ rest, known.getLast? = some '\r' → (tail ++ rest).head? ≠ some '\n') ∧
      ∃ line ∈ (lines known).dropLast, (line.head? != some '%') = false := by
  unfold endsEarly at h
  simp only at h
  split at h
  · next hcr =>
    obtain ⟨known, rfl⟩ := List.getLast?_eq_some_iff.1 hcr
    rw [List.dropLast_concat] at h
    obtain ⟨line, hline, hhead⟩ := List.any_eq_true.1 h
    exact ⟨known, ['\r'], rfl, fun rest _ => by simp, line, hline, by simpa using hhead⟩
  · next hcr =>
    obtain ⟨line, hline, hhead⟩ := List.any_eq_true.1 h
    exact ⟨text, [], by simp, fun rest hlast => absurd hlast hcr, line, hline, by simpa using hhead⟩

/-- Once the end of the data is known, it does not matter what follows. -/
theorem dataLines_append {text : List Char} (h : endsEarly text = true) (rest : List Char) :
    dataLines (text ++ rest) = dataLines text := by
  obtain ⟨known, tail, rfl, hend, hstop⟩ := exists_known_of_endsEarly h
  have hlines (rest : List Char) :
      (lines (known ++ (tail ++ rest))).takeWhile (fun line => line.head? != some '%') =
        (lines known).dropLast.takeWhile fun line => line.head? != some '%' :=
    takeWhile_eq_of_isPrefix (isPrefix_dropLast_lines (hend rest)) hstop
  have hwhole := hlines []
  rw [List.append_nil] at hwhole
  rw [dataLines, dataLines, List.append_assoc, hlines, hwhole]

end CnfSolver.Dimacs
