import CnfSolver.Proofs.Formula.Encoding
import CnfSolver.Proofs.Formula.Renaming
import CnfSolver.Proofs.NameTable.Reencoding
import CnfSolver.Proofs.Traversal

/-!
# Reading a line into a table

A line is read as a clause if all its tokens are literals. The table then gets the names in them
that it does not have yet, and under its names the clause is written as the tokens again. Otherwise
the first token that is no literal is the error, and the table gets the names up to there.
-/

namespace CnfSolver

def unseen (known names : List String) : List String :=
  (names.filter fun name => name ∉ known).eraseDups

open SignedName (IsLiteral nameOfToken)

namespace Denotes

variable {line : String} {signed : List SignedName}

theorem map_nameOfToken (h : Denotes line signed) :
    (Text.words line.toList).map nameOfToken = signed.map SignedName.name := by
  rw [h.words_eq, List.map_map]
  exact List.map_congr_left fun s hs => SignedName.nameOfToken_render (h.proper s hs)

theorem map_ofList (h : Denotes line signed) :
    (Text.words line.toList).map String.ofList = signed.map SignedName.render := by
  rw [h.words_eq, List.map_map]
  exact List.map_congr_left fun s _ => String.ofList_toList

theorem intercalate (h : Denotes line signed) :
    Denotes (" ".intercalate ((Text.words line.toList).map String.ofList)) signed := by
  rw [iff_lineNames, h.map_ofList]
  exact NameTable.lineNames_intercalate h.proper

end Denotes

namespace NameTable

variable {t : NameTable} {clause : Clause}

/-! ## Signed names -/

theorem eraseDups_append_eq {known : List String} (h : known.Nodup) (names : List String) :
    (known ++ names).eraseDups = known ++ unseen known names := by
  have hremove : names.removeAll known = names.filter fun name => name ∉ known := by
    simp [List.removeAll]
  rw [List.eraseDups_append, eraseDups_of_nodup h, hremove, unseen]

theorem IsConsistent.names_encode_eq (ht : t.IsConsistent) (signed : List SignedName) :
    (t.encode (signed.map .ok)).1.names =
      t.names ++ unseen t.names (signed.map SignedName.name) := by
  have hnames := ht.names_encode signed []
  rwa [List.append_nil, List.append_nil, eraseDups_of_nodup (ht.encode _).nodup,
    eraseDups_append_eq ht.nodup] at hnames

theorem encode_append_error (t : NameTable) (signed : List SignedName) (e : Error)
    (rest : List (Except Error SignedName)) :
    t.encode (signed.map .ok ++ .error e :: rest) =
      ((t.encode (signed.map .ok)).1, .error e) := by
  induction signed generalizing t with
  | nil => rfl
  | cons s signed ih =>
      rw [List.map_cons, List.cons_append, encode_cons_ok, ih, encode_cons_ok]
      rfl

theorem IsConsistent.number_of_getElem? (ht : t.IsConsistent) {name : String} {i : Nat}
    (h : t.names[i]? = some name) : t.number name = (t, i) := by
  rw [NameTable.number, (ht name i).2 h]

/-- What a clause stands for is encoded as the clause, and no name of it is new. -/
theorem IsConsistent.encode_of_decodes (ht : t.IsConsistent)
    {names : List (Except Error SignedName)} (h : Decodes t clause names) :
    t.encode names = (t, .ok clause) := by
  induction clause generalizing names with
  | nil =>
      obtain rfl := Decodes.nil_iff.1 h
      rfl
  | cons l clause ih =>
      obtain ⟨s, rest, hs, hrest, rfl⟩ := Decodes.cons_iff.1 h
      obtain ⟨hnonneg, hname, hnegated⟩ := signedName?_eq_some.1 hs
      rw [encode_cons_ok, ht.number_of_getElem? hname, ih hrest]
      show (t, Except.ok (Literal.of l.var.toNat s.negated :: clause)) = _
      rw [← hnegated, Int.toNat_of_nonneg hnonneg, Literal.of_var_isNegated]

theorem Decodes.length_eq {names : List (Except Error SignedName)} (h : Decodes t clause names) :
    clause.length = names.length := by
  induction clause generalizing names with
  | nil =>
      obtain rfl := Decodes.nil_iff.1 h
      rfl
  | cons l clause ih =>
      obtain ⟨s, rest, -, hrest, rfl⟩ := Decodes.cons_iff.1 h
      rw [List.length_cons, List.length_cons, ih hrest]

theorem Decodes.map_render {signed : List SignedName} (h : Decodes t clause (signed.map .ok)) :
    (clause.mapM t.signedName?).map (List.map SignedName.render) =
      some (signed.map SignedName.render) := by
  obtain ⟨signed', hsigned, heq⟩ := h
  rw [hsigned, List.map_injective_iff.2 (fun _ _ => Except.ok.inj) heq, Option.map_some]

/-! ## Lines -/

variable {line : String} {signed : List SignedName}

theorem readLine_of_denotes (t : NameTable) (h : Denotes line signed) :
    t.readLine line = t.encode (signed.map .ok) := by
  rw [readLine, Denotes.iff_lineNames.1 h]

theorem exists_ok_of_denotes (t : NameTable) (h : Denotes line signed) :
    ∃ clause, (t.readLine line).2 = .ok clause := by
  obtain ⟨clause, hok, -⟩ := encode_of_no_error (t := t) (firstError?_map_ok signed)
  exact ⟨clause, by rw [readLine_of_denotes t h, hok]⟩

/-- The first token that is no literal is the error, and the names before it are read. -/
theorem readLine_of_not_isLiteral (t : NameTable) {before after : List (List Char)}
    {token : List Char} (hline : Text.words line.toList = before ++ token :: after)
    (hbefore : ∀ b ∈ before, IsLiteral b) (htoken : ¬IsLiteral token) :
    ∃ signed : List SignedName, before.map nameOfToken = signed.map SignedName.name ∧
      t.readLine line =
        ((t.encode (signed.map .ok)).1, .error (.badLiteral (String.ofList token) line)) := by
  have hwords : ∀ word ∈ before ++ token :: after, Text.IsWord word := fun word hword =>
    Text.isWord_of_mem_words (hline ▸ hword)
  obtain ⟨hwordsBefore, hrest⟩ := List.forall_mem_append.1 hwords
  have hne : token ≠ [] := (hrest token List.mem_cons_self).ne_nil
  have hbad : SignedName.IsBadToken token := (SignedName.isBadToken_iff hne).2 htoken
  obtain ⟨signed, hsigned⟩ := SignedName.exists_map_ofToken line hwordsBefore hbefore
  have hnames : lineNames line =
      signed.map .ok ++ .error (.badLiteral (String.ofList token) line) ::
        after.map (SignedName.ofToken line) := by
    rw [lineNames, hline, List.map_append, hsigned, List.map_cons,
      SignedName.ofToken_of_isBadToken line hne hbad]
  refine ⟨signed, ?_, by rw [readLine, hnames, encode_append_error]⟩
  rw [SignedName.eq_map_render_of_map_ofToken hsigned, List.map_map]
  refine List.map_congr_left fun s hs => SignedName.nameOfToken_render ?_
  have hmem : .ok s ∈ lineNames line := by
    rw [hnames]
    exact List.mem_append_left _ (List.mem_map_of_mem hs)
  exact SignedName.isProper_of_mem_lineNames hmem

/-- What a line denotes is read with the new names behind those of the table, and is written and
read again as it is. -/
theorem readLine_spec (ht : t.IsConsistent) (h : Denotes line signed)
    (hok : (t.readLine line).2 = .ok clause) :
    (t.readLine line).1.names =
        t.names ++ unseen t.names ((Text.words line.toList).map nameOfToken) ∧
      clause.length = (Text.words line.toList).length ∧
      (clause.mapM (t.readLine line).1.signedName?).map (List.map SignedName.render) =
        some ((Text.words line.toList).map String.ofList) ∧
      (t.readLine line).1.readLine
          (" ".intercalate ((Text.words line.toList).map String.ofList)) =
        ((t.readLine line).1, .ok clause) := by
  rw [readLine_of_denotes t h] at hok ⊢
  have hdecodes := ht.decodes_encode _ hok
  refine ⟨?_, ?_, ?_, ?_⟩
  · rw [ht.names_encode_eq, h.map_nameOfToken]
  · rw [hdecodes.length_eq, h.words_eq, List.length_map, List.length_map]
  · rw [hdecodes.map_render, h.map_ofList]
  · rw [readLine_of_denotes _ h.intercalate, (ht.encode _).encode_of_decodes hdecodes]

/-- A line is read if all its tokens are literals. The new names in them then come behind those of
the table, under which the clause is written as the tokens, and reading it again so written changes
nothing. Otherwise the first other token is the error, and the new names before it are kept. -/
theorem readLine_of_spaced (ht : t.IsConsistent) {tokens : List (List Char)}
    (htokens : Text.Spaced tokens line.toList) :
    ((∃ clause, (t.readLine line).2 = .ok clause) ↔ ∀ token ∈ tokens, IsLiteral token) ∧
    (∀ clause, (t.readLine line).2 = .ok clause →
      (t.readLine line).1.names = t.names ++ unseen t.names (tokens.map nameOfToken) ∧
      clause.length = tokens.length ∧
      (clause.mapM (t.readLine line).1.signedName?).map (List.map SignedName.render) =
        some (tokens.map String.ofList) ∧
      (t.readLine line).1.readLine (" ".intercalate (tokens.map String.ofList)) =
        ((t.readLine line).1, .ok clause)) ∧
    (∀ e, (t.readLine line).2 = .error e → ∃ before token after,
      tokens = before ++ token :: after ∧ (∀ b ∈ before, IsLiteral b) ∧ ¬IsLiteral token ∧
        e = .badLiteral (String.ofList token) line ∧
        (t.readLine line).1.names = t.names ++ unseen t.names (before.map nameOfToken)) ∧
    (t.readLine line).1.IsConsistent := by
  obtain rfl := htokens.words_eq
  by_cases hall : ∀ token ∈ Text.words line.toList, IsLiteral token
  · obtain ⟨signed, h⟩ := exists_denotes hall
    obtain ⟨clause, hok⟩ := exists_ok_of_denotes t h
    refine ⟨⟨fun _ => hall, fun _ => ⟨clause, hok⟩⟩, fun _ => readLine_spec ht h, ?_, ht.encode _⟩
    exact fun e herror => nomatch hok.symm.trans herror
  · have hsome : ∃ token ∈ Text.words line.toList, ¬IsLiteral token := by simpa using hall
    obtain ⟨before, token, after, hline, hbefore, htoken⟩ := exists_first_not hsome
    obtain ⟨signed, hnames, hread⟩ := readLine_of_not_isLiteral t hline hbefore htoken
    have herror : (t.readLine line).2 = .error (.badLiteral (String.ofList token) line) := by
      rw [hread]
    have hfails : ∀ clause, (t.readLine line).2 ≠ .ok clause := fun clause hok =>
      nomatch hok.symm.trans herror
    refine ⟨⟨?_, fun h => absurd h hall⟩, fun clause hok => absurd hok (hfails clause),
      fun e he => ?_, ht.encode _⟩
    · rintro ⟨clause, hok⟩
      exact absurd hok (hfails clause)
    · refine ⟨before, token, after, hline, hbefore, htoken, ?_, ?_⟩
      · exact Except.error.inj (he.symm.trans herror)
      · rw [hread, hnames, ht.names_encode_eq]

/-- A table with names that no token has, a line with a name twice and blanks of several kinds, and
a line with two tokens that are no literals. -/
theorem readLine_of_spaced_twice :
    let t := ofNames ["A", "x y", "~"]
    let good := "~B\tA\u00a0 ~B C"
    let bad := "C ~A B ~ D~"
    (t.readLine good).1.names = ["A", "x y", "~", "B", "C"] ∧
      (t.readLine good).1.readLine "~B A ~B C" =
        ((t.readLine good).1, .ok [⟨7⟩, ⟨0⟩, ⟨7⟩, ⟨8⟩]) ∧
      ¬∃ clause, (t.readLine bad).2 = .ok clause := by
  intro t good bad
  have ht : t.IsConsistent := isConsistent_ofNames (by decide)
  have hgood : Text.Spaced [['~', 'B'], ['A'], ['~', 'B'], ['C']] good.toList := by
    decide +kernel
  have hbad : Text.Spaced [['C'], ['~', 'A'], ['B'], ['~'], ['D', '~']] bad.toList := by
    decide +kernel
  have hok : (t.readLine good).2 = .ok [⟨7⟩, ⟨0⟩, ⟨7⟩, ⟨8⟩] := by decide +kernel
  obtain ⟨-, hspec, -⟩ := readLine_of_spaced ht hgood
  obtain ⟨hnames, -, -, hagain⟩ := hspec _ hok
  refine ⟨hnames.trans (by decide +kernel), ?_, ?_⟩
  · have hline : " ".intercalate ([['~', 'B'], ['A'], ['~', 'B'], ['C']].map String.ofList) =
        "~B A ~B C" := by decide +kernel
    rw [hline] at hagain
    exact hagain
  · rw [(readLine_of_spaced ht hbad).1]
    decide

end NameTable

end CnfSolver
