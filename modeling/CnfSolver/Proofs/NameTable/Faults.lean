import CnfSolver.Proofs.NameTable.Growth
import CnfSolver.Proofs.NameTable.Tokens

/-!
# Where encoding fails

Encoding goes through the clauses in order and through the names of each in order, so the first
error that it meets is the error of the whole. It depends on the names only and not on the table.
Without an error every name becomes a literal, so the empty clauses stay the empty ones.
-/

namespace CnfSolver.NameTable

def firstError? (names : List (Except Error SignedName)) : Option Error :=
  names.findSome? fun
    | .error e => some e
    | .ok _ => none

theorem mem_of_firstError? {names : List (Except Error SignedName)} {e : Error}
    (h : firstError? names = some e) : .error e ∈ names := by
  obtain ⟨name, hname, heq⟩ := List.exists_of_findSome?_eq_some h
  cases name with
  | ok s => exact nomatch heq
  | error e' =>
      obtain rfl := Option.some.inj heq
      exact hname

theorem encode_of_error {t : NameTable} {names : List (Except Error SignedName)} {e : Error}
    (h : firstError? names = some e) : (t.encode names).2 = .error e := by
  induction names generalizing t with
  | nil => exact nomatch h
  | cons name rest ih =>
      cases name with
      | error e' =>
          obtain rfl := Option.some.inj h
          rfl
      | ok s =>
          rw [encode_cons_ok]
          simp only [ih h]
          rfl

theorem encode_of_no_error {t : NameTable} {names : List (Except Error SignedName)}
    (h : firstError? names = none) :
    ∃ clause, (t.encode names).2 = .ok clause ∧ clause.isEmpty = names.isEmpty := by
  induction names generalizing t with
  | nil => exact ⟨[], rfl, rfl⟩
  | cons name rest ih =>
      cases name with
      | error e => exact nomatch h
      | ok s =>
          obtain ⟨clause, hok, -⟩ := ih (t := (t.number s.name).1) h
          refine ⟨Literal.of (t.number s.name).2 s.negated :: clause, ?_, rfl⟩
          rw [encode_cons_ok]
          simp only [hok]
          rfl

theorem encodeAll_of_error {t : NameTable} {clauses : List (List (Except Error SignedName))}
    {e : Error} (h : clauses.findSome? firstError? = some e) :
    (t.encodeAll clauses).2 = .error e := by
  induction clauses generalizing t with
  | nil => exact nomatch h
  | cons names rest ih =>
      rw [List.findSome?_cons] at h
      cases hnames : firstError? names with
      | some e' =>
          rw [hnames] at h
          obtain rfl := Option.some.inj h
          rw [encodeAll_cons_of_error (encode_of_error hnames)]
      | none =>
          rw [hnames] at h
          obtain ⟨clause, hok, -⟩ := encode_of_no_error (t := t) hnames
          rw [encodeAll_cons_of_ok hok]
          simp only [ih h]
          rfl

theorem encodeAll_of_no_error {t : NameTable} {clauses : List (List (Except Error SignedName))}
    (h : clauses.findSome? firstError? = none) :
    ∃ cs, (t.encodeAll clauses).2 = .ok cs ∧
      cs.any List.isEmpty = clauses.any List.isEmpty := by
  induction clauses generalizing t with
  | nil => exact ⟨[], rfl, rfl⟩
  | cons names rest ih =>
      rw [List.findSome?_cons] at h
      cases hnames : firstError? names with
      | some e' =>
          rw [hnames] at h
          exact nomatch h
      | none =>
          rw [hnames] at h
          obtain ⟨clause, hok, hempty⟩ := encode_of_no_error (t := t) hnames
          obtain ⟨cs, hoks, hempties⟩ := ih (t := (t.encode names).1) h
          refine ⟨clause :: cs, ?_, ?_⟩
          · rw [encodeAll_cons_of_ok hok]
            simp only [hoks]
            rfl
          · rw [List.any_cons, List.any_cons, hempty, hempties]

/-! ## Lines of text -/

def lineFault? (line : String) : Option Error :=
  ((Text.words line.toList).find? fun token => SignedName.IsBadToken token).map fun token =>
    .badLiteral (String.ofList token) line

theorem firstError?_tokens (line : String) {tokens : List (List Char)}
    (hne : ∀ token ∈ tokens, token ≠ [])
    (hblank : ∀ token ∈ tokens, ∀ c ∈ token, Text.isBlank c = false) :
    firstError? (tokens.map (SignedName.ofToken line)) =
      (tokens.find? fun token => SignedName.IsBadToken token).map fun token =>
        .badLiteral (String.ofList token) line := by
  induction tokens with
  | nil => rfl
  | cons token tokens ih =>
      obtain ⟨hne, hnes⟩ := List.forall_mem_cons.1 hne
      obtain ⟨hblank, hblanks⟩ := List.forall_mem_cons.1 hblank
      by_cases hbad : SignedName.IsBadToken token
      · rw [List.map_cons, SignedName.ofToken_of_isBadToken line hne hbad,
          List.find?_cons_of_pos (by simpa using hbad)]
        rfl
      · obtain ⟨s, hs, -⟩ := SignedName.exists_ofToken_eq_ok line hne hblank hbad
        rw [List.map_cons, hs, List.find?_cons_of_neg (by simpa using hbad), ← ih hnes hblanks]
        rfl

theorem firstError?_lineNames (line : String) :
    firstError? (lineNames line) = lineFault? line :=
  firstError?_tokens line (fun _ => Text.ne_nil_of_mem_words)
    (fun _ => Text.not_isBlank_of_mem_words)

theorem isEmpty_lineNames (line : String) :
    (lineNames line).isEmpty = line.toList.all Text.isBlank := by
  rw [Bool.eq_iff_iff, List.isEmpty_iff, lineNames, List.map_eq_nil_iff, Text.words_eq_nil_iff,
    List.all_eq_true]

end CnfSolver.NameTable
