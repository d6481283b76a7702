import CnfSolver.Text.Characters

/-!
# Words between blanks

Splitting a text at its blanks leaves the other characters in order. A text is spaced out from words
if it has them in order, with blanks between two of them and possibly at the ends. Such a text
splits into these words again, whichever and however many blanks there are.
-/

namespace CnfSolver.Text

/-! ## The words of a text -/

theorem flatten_splitOnP {α : Type} (p : α → Bool) (xs : List α) :
    (xs.splitOnP p).flatten = xs.filter fun x => !p x := by
  induction xs with
  | nil => rfl
  | cons x xs ih =>
      rw [List.splitOnP_cons_eq_if_modifyHead, List.filter_cons]
      by_cases hx : p x
      · simp [hx, ih]
      · obtain ⟨part, parts, hparts⟩ := List.exists_cons_of_ne_nil (List.splitOnP_ne_nil p xs)
        rw [hparts, List.flatten_cons] at ih
        simp [hx, hparts, ih]

theorem ne_nil_of_mem_words {cs word : List Char} (h : word ∈ words cs) : word ≠ [] := by
  have hword := (List.mem_filter.1 h).2
  rintro rfl
  simp at hword

theorem not_isBlank_of_mem_words {cs word : List Char} (h : word ∈ words cs) :
    ∀ c ∈ word, isBlank c = false := by
  intro c hc
  have hflat : c ∈ (cs.splitOnP isBlank).flatten :=
    List.mem_flatten.2 ⟨word, (List.mem_filter.1 h).1, hc⟩
  rw [flatten_splitOnP, List.mem_filter] at hflat
  simpa using hflat.2

theorem words_eq_nil_iff {cs : List Char} : words cs = [] ↔ ∀ c ∈ cs, isBlank c = true := by
  have hparts : words cs = [] ↔ (cs.splitOnP isBlank).flatten = [] := by
    rw [words, List.filter_eq_nil_iff, List.flatten_eq_nil_iff]
    exact forall₂_congr fun word _ => by simp
  rw [hparts, flatten_splitOnP, List.filter_eq_nil_iff]
  exact forall₂_congr fun c _ => by simp

/-- A character that is not blank at the start of a text starts the first word. -/
theorem exists_words_cons {c : Char} (hc : isBlank c = false) (cs : List Char) :
    ∃ rest more, words (c :: cs) = (c :: rest) :: more := by
  obtain ⟨part, parts, hparts⟩ := List.exists_cons_of_ne_nil (List.splitOnP_ne_nil isBlank cs)
  refine ⟨part, parts.filter fun word => !word.isEmpty, ?_⟩
  rw [words, List.splitOnP_cons_eq_if_modifyHead, hc, if_neg Bool.false_ne_true, hparts]
  rfl

/-! ## Texts of words -/

structure IsWord (word : List Char) : Prop where
  ne_nil : word ≠ []
  not_blank : ∀ c ∈ word, isBlank c = false

theorem isWord_of_mem_words {cs word : List Char} (h : word ∈ words cs) : IsWord word where
  ne_nil := ne_nil_of_mem_words h
  not_blank := not_isBlank_of_mem_words h

/-- The text has the words in order, apart from each other by one or more blanks. -/
inductive Spaced : List (List Char) → List Char → Prop
  | nil {blanks : List Char} (hblanks : ∀ c ∈ blanks, isBlank c = true) : Spaced [] blanks
  | cons {blanks word rest : List Char} {words : List (List Char)}
      (hblanks : ∀ c ∈ blanks, isBlank c = true) (hword : IsWord word)
      (hend : ∀ c ∈ rest.head?, isBlank c = true) (hrest : Spaced words rest) :
      Spaced (word :: words) (blanks ++ word ++ rest)

/-! ## Splitting at blanks -/

theorem words_append_blank {b : Char} (hb : isBlank b = true) (cs ds : List Char) :
    words (cs ++ b :: ds) = words cs ++ words ds := by
  rw [words, List.splitOnP_append_cons cs ds hb, List.filter_append, words, words]

theorem words_blanks_append {blanks : List Char} (h : ∀ c ∈ blanks, isBlank c = true)
    (cs : List Char) : words (blanks ++ cs) = words cs := by
  induction blanks with
  | nil => rfl
  | cons b blanks ih =>
      obtain ⟨hb, hblanks⟩ := List.forall_mem_cons.1 h
      have hsplit := words_append_blank hb [] (blanks ++ cs)
      rw [List.nil_append] at hsplit
      rw [List.cons_append, hsplit, ih hblanks]
      rfl

theorem words_append_blanks {blanks : List Char} (h : ∀ c ∈ blanks, isBlank c = true)
    (cs : List Char) : words (cs ++ blanks) = words cs := by
  cases blanks with
  | nil => rw [List.append_nil]
  | cons b blanks =>
      obtain ⟨hb, hblanks⟩ := List.forall_mem_cons.1 h
      rw [words_append_blank hb, words_eq_nil_iff.2 hblanks, List.append_nil]

theorem IsWord.words_eq {word : List Char} (h : IsWord word) : words word = [word] := by
  rw [words, List.splitOnP_eq_singleton h.not_blank]
  simp [h.ne_nil]

theorem IsWord.words_append {word rest : List Char} (h : IsWord word)
    (hend : ∀ c ∈ rest.head?, isBlank c = true) : words (word ++ rest) = word :: words rest := by
  cases rest with
  | nil => rw [List.append_nil, h.words_eq]; rfl
  | cons b rest =>
      have hb : isBlank b = true := hend b rfl
      have hrest := words_append_blank hb [] rest
      rw [List.nil_append] at hrest
      rw [words_append_blank hb, h.words_eq, hrest]
      rfl

theorem Spaced.words_eq {tokens : List (List Char)} {cs : List Char} (h : Spaced tokens cs) :
    words cs = tokens := by
  induction h with
  | nil hblanks => exact words_eq_nil_iff.2 hblanks
  | cons hblanks hword hend _ ih =>
      rw [List.append_assoc, words_blanks_append hblanks, hword.words_append hend, ih]

theorem Spaced.cons_blank {b : Char} (hb : isBlank b = true) {tokens : List (List Char)}
    {cs : List Char} (h : Spaced tokens cs) : Spaced tokens (b :: cs) := by
  cases h with
  | nil hblanks => exact .nil (List.forall_mem_cons.2 ⟨hb, hblanks⟩)
  | @cons blanks word rest words hblanks hword hend hrest =>
      have hmore : ∀ c ∈ b :: blanks, isBlank c = true := List.forall_mem_cons.2 ⟨hb, hblanks⟩
      exact .cons hmore hword hend hrest

/-- Every text is spaced out from words: a character that is not blank goes on with the word behind
it, or is a word by itself if a blank or nothing is behind it. -/
theorem exists_spaced (cs : List Char) : ∃ tokens, Spaced tokens cs := by
  induction cs with
  | nil => exact ⟨[], .nil (List.forall_mem_nil _)⟩
  | cons c cs ih =>
      obtain ⟨tokens, h⟩ := ih
      by_cases hc : isBlank c = true
      · exact ⟨tokens, h.cons_blank hc⟩
      · have hnil : ∀ c ∈ ([] : List Char), isBlank c = true := List.forall_mem_nil _
        have hword : IsWord [c] := ⟨List.cons_ne_nil _ _, by simpa using hc⟩
        cases h with
        | nil hblanks =>
            refine ⟨[[c]], .cons hnil hword ?_ (.nil hblanks)⟩
            exact fun b hb => hblanks b (List.mem_of_mem_head? hb)
        | @cons blanks word rest words hblanks hword' hend hrest =>
            cases blanks with
            | nil =>
                have hmore : IsWord (c :: word) := by
                  refine ⟨List.cons_ne_nil _ _, List.forall_mem_cons.2 ⟨?_, hword'.not_blank⟩⟩
                  exact hword.not_blank c List.mem_cons_self
                exact ⟨(c :: word) :: words, .cons hnil hmore hend hrest⟩
            | cons b blanks =>
                have hb : isBlank b = true := hblanks b List.mem_cons_self
                refine ⟨[c] :: word :: words, .cons hnil hword ?_ (.cons hblanks hword' hend hrest)⟩
                simpa using hb

theorem spaced_iff {tokens : List (List Char)} {cs : List Char} :
    Spaced tokens cs ↔ words cs = tokens := by
  constructor
  · exact Spaced.words_eq
  · rintro rfl
    obtain ⟨tokens, h⟩ := exists_spaced cs
    rw [h.words_eq]
    exact h

instance (tokens : List (List Char)) (cs : List Char) : Decidable (Spaced tokens cs) :=
  decidable_of_iff (words cs = tokens) spaced_iff.symm

theorem spaced_intercalate {tokens : List (List Char)} (h : ∀ token ∈ tokens, IsWord token) :
    Spaced tokens ([' '].intercalate tokens) := by
  have hnil : ∀ c ∈ ([] : List Char), isBlank c = true := List.forall_mem_nil _
  induction tokens with
  | nil => exact .nil hnil
  | cons token tokens ih =>
      obtain ⟨htoken, htokens⟩ := List.forall_mem_cons.1 h
      cases tokens with
      | nil =>
          have hspaced := Spaced.cons hnil htoken (by simp) (.nil hnil)
          simpa [List.intercalate] using hspaced
      | cons next tokens =>
          have hspace : isBlank ' ' = true := by decide
          have hrest := (ih htokens).cons_blank hspace
          have hspaced := Spaced.cons hnil htoken (by simpa using hspace) hrest
          simpa [List.intercalate] using hspaced

/-! ## Blanks at the ends -/

theorem exists_append_strip (cs : List Char) :
    ∃ before after, (∀ c ∈ before, isBlank c = true) ∧ (∀ c ∈ after, isBlank c = true) ∧
      cs = before ++ strip cs ++ after := by
  have hblank : ∀ ds : List Char, ∀ c ∈ ds.takeWhile isBlank, isBlank c = true :=
    fun _ => List.all_eq_true.1 List.all_takeWhile
  let tail := cs.dropWhile isBlank
  refine ⟨cs.takeWhile isBlank, (tail.reverse.takeWhile isBlank).reverse, hblank cs, ?_, ?_⟩
  · intro c hc
    exact hblank _ c (List.mem_reverse.1 hc)
  · have htail : strip cs ++ (tail.reverse.takeWhile isBlank).reverse = tail := by
      rw [strip, ← List.reverse_append, List.takeWhile_append_dropWhile, List.reverse_reverse]
    rw [List.append_assoc, htail, List.takeWhile_append_dropWhile]

theorem words_strip (cs : List Char) : words (strip cs) = words cs := by
  obtain ⟨before, after, hbefore, hafter, heq⟩ := exists_append_strip cs
  calc
    words (strip cs) = words (strip cs ++ after) := (words_append_blanks hafter _).symm
    _ = words (before ++ (strip cs ++ after)) := (words_blanks_append hbefore _).symm
    _ = words cs := by rw [← List.append_assoc, ← heq]

theorem head?_strip {blanks : List Char} (hblanks : ∀ c ∈ blanks, isBlank c = true) {c : Char}
    (hc : isBlank c = false) (rest : List Char) :
    (strip (blanks ++ c :: rest)).head? = some c := by
  have hfront : (blanks ++ c :: rest).dropWhile isBlank = c :: rest := by
    rw [List.dropWhile_append_of_pos hblanks, List.dropWhile_cons_of_neg (by simp [hc])]
  rw [strip, hfront, List.reverse_cons, List.head?_reverse, List.dropWhile_append]
  split
  · rw [List.dropWhile_cons_of_neg (by simp [hc])]
    rfl
  · exact List.getLast?_concat

end CnfSolver.Text
