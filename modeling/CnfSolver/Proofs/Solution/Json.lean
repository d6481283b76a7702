import CnfSolver.Proofs.Solution.Entries
import CnfSolver.Proofs.Text.JsonString

/-!
# Models in JSON

A JSON object whose values are whole numbers or null is read member by member. What is written for a
model is read back as its names and values, in their order, so two models are written alike in JSON
only if they have the same values by name.
-/

namespace CnfSolver

namespace Json

open Text (readString)

/-! ## Reading objects -/

def isSpace (c : Char) : Bool := c == ' ' || c == '\t' || c == '\n' || c == '\r'

def skip (cs : List Char) : List Char := cs.dropWhile isSpace

/-- A natural number and what is behind it. No zero stands in front of other digits. -/
def readNat (cs : List Char) : Option (Nat × List Char) :=
  let digits := cs.takeWhile Char.isDigit
  if digits = [] ∨ digits.head? = some '0' ∧ digits ≠ ['0'] then none
  else some (Nat.ofDigitChars 10 digits 0, cs.dropWhile Char.isDigit)

def readValue : List Char → Option (Option Int × List Char)
  | 'n' :: 'u' :: 'l' :: 'l' :: cs => some (none, cs)
  | '-' :: cs => (readNat cs).map fun (n, cs) => (some (-n), cs)
  | cs => (readNat cs).map fun (n, cs) => (some n, cs)

def readMember (cs : List Char) : Option ((String × Option Int) × List Char) :=
  (readString cs).bind fun (name, cs) =>
    match skip cs with
    | ':' :: cs => (readValue (skip cs)).map fun (value, cs) => ((name, value), cs)
    | _ => none

/-- The members up to the closing brace, at most as many as the first argument says. -/
def readMembers : Nat → List Char → Option (List (String × Option Int) × List Char)
  | 0, _ => none
  | bound + 1, cs =>
      (readMember (skip cs)).bind fun (member, cs) =>
        match skip cs with
        | '\x7d' :: cs => some ([member], cs)
        | ',' :: cs => (readMembers bound cs).map fun (members, cs) => (member :: members, cs)
        | _ => none

def readObject : List Char → Option (List (String × Option Int) × List Char)
  | '\x7b' :: cs =>
      match skip cs with
      | '\x7d' :: cs => some ([], cs)
      -- a member takes more than one character
      | cs => readMembers cs.length cs
  | _ => none

def decode (text : String) : Option (List (String × Option Int)) :=
  (readObject (skip text.toList)).bind fun (members, cs) =>
    if skip cs = [] then some members else none

theorem skip_eq_self {cs : List Char} (h : ∀ c ∈ cs.head?, isSpace c = false) : skip cs = cs := by
  cases cs with
  | nil => rfl
  | cons c cs =>
    rw [skip, List.dropWhile_cons_of_neg]
    rw [h c rfl]
    exact Bool.false_ne_true

/-! ## Numbers -/

theorem isSpace_of_isDigit {c : Char} (h : c.isDigit = true) : isSpace c = false := by
  by_contra hspace
  simp only [isSpace, Bool.not_eq_false, Bool.or_eq_true, beq_iff_eq] at hspace
  obtain ((rfl | rfl) | rfl) | rfl := hspace
  all_goals exact absurd h (by decide)

theorem isDigit_of_mem_head? {n : Nat} {rest : List Char} {c : Char}
    (h : c ∈ (Nat.toDigits 10 n ++ rest).head?) : c.isDigit = true := by
  rw [List.head?_append_of_ne_nil _ Nat.toDigits_ne_nil] at h
  exact Nat.isDigit_of_mem_toDigits (by decide) (by decide) (List.mem_of_mem_head? h)

theorem head?_toDigits_ne {n : Nat} (h : n ≠ 0) : (Nat.toDigits 10 n).head? ≠ some '0' := by
  induction n using Nat.strongRecOn with
  | ind n ih =>
    rcases Nat.lt_or_ge n 10 with hn | hn
    · rw [Nat.toDigits_of_lt_base hn]
      exact fun hzero => h (Nat.digitChar_eq_zero.1 (Option.some.inj hzero))
    · rw [Nat.toDigits_of_base_le (by decide) hn,
        List.head?_append_of_ne_nil _ Nat.toDigits_ne_nil]
      exact ih (n / 10) (by omega) (by omega)

theorem takeWhile_append {p : Char → Bool} {cs rest : List Char} (hcs : ∀ c ∈ cs, p c = true)
    (hrest : ∀ c ∈ rest.head?, p c = false) :
    (cs ++ rest).takeWhile p = cs ∧ (cs ++ rest).dropWhile p = rest := by
  rw [List.takeWhile_append_of_pos hcs, List.dropWhile_append_of_pos hcs]
  cases rest with
  | nil => simp
  | cons c rest => simp [hrest c rfl]

theorem readNat_toDigits (n : Nat) {rest : List Char} (h : ∀ c ∈ rest.head?, c.isDigit = false) :
    readNat (Nat.toDigits 10 n ++ rest) = some (n, rest) := by
  have hdigit : ∀ c ∈ Nat.toDigits 10 n, c.isDigit = true :=
    fun c hc => Nat.isDigit_of_mem_toDigits (by decide) (by decide) hc
  obtain ⟨htake, hdrop⟩ := takeWhile_append hdigit h
  rw [readNat, htake, hdrop, Nat.ofDigitChars_toDigits (by decide) (by decide)]
  apply if_neg
  rintro (hnil | ⟨hhead, hmore⟩)
  · exact Nat.toDigits_ne_nil hnil
  · by_cases hn : n = 0
    · exact hmore (by rw [hn, Nat.toDigits_zero])
    · exact head?_toDigits_ne hn hhead

end Json

/-! ## Reading back -/

namespace Solution

open Json

theorem toList_jsonValue_natCast (n : Nat) :
    (jsonValue (some n)).toList = Nat.toDigits 10 n := Nat.toList_repr

theorem toList_jsonValue_negSucc (n : Nat) :
    (jsonValue (some (Int.negSucc n))).toList = '-' :: Nat.toDigits 10 (n + 1) := by
  show ("-" ++ (n + 1).repr).toList = _
  rw [String.toList_append, Nat.toList_repr]
  rfl

theorem readValue_jsonValue (value : Option Int) {rest : List Char}
    (h : ∀ c ∈ rest.head?, c.isDigit = false) :
    readValue ((jsonValue value).toList ++ rest) = some (value, rest) := by
  cases value with
  | none => rfl
  | some v =>
    cases v with
    | ofNat n =>
      show readValue ((jsonValue (some n)).toList ++ rest) = _
      have hdigit : ∀ c cs, Nat.toDigits 10 n ++ rest = c :: cs → c.isDigit = true := by
        intro c cs heq
        exact isDigit_of_mem_head? (by rw [heq]; rfl)
      rw [toList_jsonValue_natCast, readValue, readNat_toDigits n h]
      · rfl
      · exact fun cs heq => absurd (hdigit _ _ heq) (by decide)
      · exact fun cs heq => absurd (hdigit _ _ heq) (by decide)
    | negSucc n =>
      rw [toList_jsonValue_negSucc, List.cons_append, readValue, readNat_toDigits _ h]
      rfl

theorem skip_jsonValue (value : Option Int) (rest : List Char) :
    skip ((jsonValue value).toList ++ rest) = (jsonValue value).toList ++ rest := by
  cases value with
  | none => rfl
  | some v =>
    cases v with
    | ofNat n =>
      show skip ((jsonValue (some n)).toList ++ rest) = (jsonValue (some n)).toList ++ rest
      rw [toList_jsonValue_natCast]
      exact skip_eq_self fun c hc => isSpace_of_isDigit (isDigit_of_mem_head? hc)
    | negSucc n =>
      rw [toList_jsonValue_negSucc]
      rfl

theorem toList_jsonEntry_append (entry : String × Option Int) (rest : List Char) :
    (jsonEntry entry).toList ++ rest =
      (Text.jsonString entry.1).toList ++ ':' :: ((jsonValue entry.2).toList ++ rest) := by
  rw [jsonEntry, String.toList_append, String.toList_append, List.append_assoc, List.append_assoc]
  rfl

theorem readMember_jsonEntry (entry : String × Option Int) {rest : List Char}
    (h : ∀ c ∈ rest.head?, c.isDigit = false) :
    readMember ((jsonEntry entry).toList ++ rest) = some (entry, rest) := by
  have hcolon : ∀ cs, skip (':' :: cs) = ':' :: cs := fun cs => rfl
  rw [toList_jsonEntry_append, readMember, Text.readString_jsonString, Option.bind_some]
  simp only [hcolon, skip_jsonValue, readValue_jsonValue _ h, Option.map_some]

theorem skip_jsonEntry (entry : String × Option Int) (rest : List Char) :
    skip ((jsonEntry entry).toList ++ rest) = (jsonEntry entry).toList ++ rest := by
  rw [toList_jsonEntry_append, Text.jsonString, String.toList_ofList]
  rfl

def jsonMembers (entries : List (String × Option Int)) : List Char :=
  [','].intercalate (entries.map fun entry => (jsonEntry entry).toList) ++ ['\x7d']

theorem jsonMembers_cons_cons (first second : String × Option Int)
    (entries : List (String × Option Int)) :
    jsonMembers (first :: second :: entries) =
      (jsonEntry first).toList ++ ',' :: jsonMembers (second :: entries) := by
  simp only [jsonMembers, List.map_cons, List.intercalate_cons_cons, List.append_assoc,
    List.cons_append, List.nil_append]

theorem jsonMembers_singleton (entry : String × Option Int) :
    jsonMembers [entry] = (jsonEntry entry).toList ++ ['\x7d'] := by
  rw [jsonMembers, List.map_singleton, List.intercalate_singleton]

theorem readMembers_jsonMembers {bound : Nat} (entry : String × Option Int)
    {entries : List (String × Option Int)} (h : entries.length < bound) :
    readMembers bound (jsonMembers (entry :: entries)) = some (entry :: entries, []) := by
  induction entries generalizing entry bound with
  | nil =>
    obtain ⟨bound, rfl⟩ := Nat.exists_eq_succ_of_ne_zero (Nat.ne_zero_of_lt h)
    have hdigit : ∀ c ∈ ['\x7d'].head?, c.isDigit = false := by
      rintro _ ⟨⟩
      rfl
    rw [jsonMembers_singleton, readMembers, skip_jsonEntry, readMember_jsonEntry entry hdigit]
    rfl
  | cons second entries ih =>
    obtain ⟨bound, rfl⟩ := Nat.exists_eq_succ_of_ne_zero (Nat.ne_zero_of_lt h)
    have hcomma : skip (',' :: jsonMembers (second :: entries)) =
        ',' :: jsonMembers (second :: entries) := rfl
    have hdigit : ∀ c ∈ (',' :: jsonMembers (second :: entries)).head?, c.isDigit = false := by
      rintro _ ⟨⟩
      rfl
    rw [jsonMembers_cons_cons, readMembers, skip_jsonEntry, readMember_jsonEntry entry hdigit,
      Option.bind_some]
    simp only [hcomma, ih second (Nat.lt_of_succ_lt_succ h), Option.map_some]

theorem length_lt_length_jsonMembers (entry : String × Option Int)
    (entries : List (String × Option Int)) :
    entries.length < (jsonMembers (entry :: entries)).length := by
  induction entries generalizing entry with
  | nil => simp [jsonMembers_singleton]
  | cons second entries ih =>
    have hlength := ih second
    rw [jsonMembers_cons_cons, List.length_append, List.length_cons, List.length_cons]
    omega

theorem exists_jsonMembers_eq (entry : String × Option Int)
    (entries : List (String × Option Int)) :
    ∃ cs, jsonMembers (entry :: entries) = '"' :: cs := by
  have hentry : ∃ cs, (jsonEntry entry).toList = '"' :: cs := by
    rw [← List.append_nil (jsonEntry entry).toList, toList_jsonEntry_append, Text.jsonString,
      String.toList_ofList]
    exact ⟨_, rfl⟩
  obtain ⟨cs, hcs⟩ := hentry
  cases entries with
  | nil => exact ⟨_, by rw [jsonMembers_singleton, hcs]; rfl⟩
  | cons second entries => exact ⟨_, by rw [jsonMembers_cons_cons, hcs]; rfl⟩

theorem toList_json (names : List String) (a : Assignment) :
    (model names a).json.toList = '\x7b' :: jsonMembers (entriesOf names a) := by
  show (Format.object "," ((entriesOf names a).map jsonEntry)).toList = _
  rw [Format.toList_object, List.map_map]
  rfl

theorem decode_json (s : Solution) : decode s.json = s.entries? := by
  cases s with
  | unsatisfiable => rfl
  | model names a =>
    rw [decode, toList_json, entries?]
    cases entriesOf names a with
    | nil => rfl
    | cons entry entries =>
      obtain ⟨cs, hcs⟩ := exists_jsonMembers_eq entry entries
      have hlength := length_lt_length_jsonMembers entry entries
      have hobject : readObject (skip ('\x7b' :: jsonMembers (entry :: entries))) =
          readMembers (jsonMembers (entry :: entries)).length (jsonMembers (entry :: entries)) := by
        rw [hcs]
        rfl
      rw [hobject, readMembers_jsonMembers entry hlength]
      rfl

/-! ## Printable text -/

theorem isAscii_of_mem_jsonValue (value : Option Int) :
    ∀ c ∈ (jsonValue value).toList, Text.IsAscii c := by
  have hdigits : ∀ n, ∀ c ∈ Nat.toDigits 10 n, Text.IsAscii c :=
    Text.isAscii_of_mem_toDigits (by decide) (by decide)
  cases value with
  | none =>
    show ∀ c ∈ ['n', 'u', 'l', 'l'], Text.IsAscii c
    simp [Text.IsAscii]
  | some v =>
    cases v with
    | ofNat n =>
      show ∀ c ∈ (jsonValue (some n)).toList, Text.IsAscii c
      rw [toList_jsonValue_natCast]
      exact hdigits n
    | negSucc n =>
      rw [toList_jsonValue_negSucc]
      exact List.forall_mem_cons.2 ⟨by decide, hdigits (n + 1)⟩

theorem isAscii_of_mem_jsonEntry (entry : String × Option Int) :
    ∀ c ∈ (jsonEntry entry).toList, Text.IsAscii c := by
  rw [jsonEntry, String.toList_append, String.toList_append, List.forall_mem_append,
    List.forall_mem_append]
  exact ⟨⟨Text.isAscii_of_mem_jsonString entry.1, List.forall_mem_singleton.2 (by decide)⟩,
    isAscii_of_mem_jsonValue entry.2⟩

theorem isAscii_of_mem_json (names : List String) (a : Assignment) :
    ∀ c ∈ (model names a).json.toList, Text.IsAscii c := by
  rw [toList_json, jsonMembers, List.forall_mem_cons, List.forall_mem_append,
    List.forall_mem_singleton]
  have hcomma : ∀ c ∈ [','], Text.IsAscii c := List.forall_mem_singleton.2 (by decide)
  refine ⟨by decide, Text.forall_mem_intercalate hcomma fun part hpart => ?_, by decide⟩
  obtain ⟨entry, -, rfl⟩ := List.mem_map.1 hpart
  exact isAscii_of_mem_jsonEntry entry

/-! ## No loss -/

theorem json_eq_json_iff (s s' : Solution) : s.json = s'.json ↔ s.entries? = s'.entries? := by
  constructor
  · intro h
    rw [← decode_json, ← decode_json, h]
  · intro h
    cases s with
    | unsatisfiable =>
      cases s' with
      | unsatisfiable => rfl
      | model names' a' => cases h
    | model names a =>
      cases s' with
      | unsatisfiable => cases h
      | model names' a' => rw [json, json, Option.some.inj h]

/-- Any values of any names are written in JSON with printable ASCII characters only, and nothing is
lost: the text is read back as the values by name, each name at its first place and with its last
value. -/
theorem json_lossless (names : List String) (a : Assignment) :
    (∀ c ∈ (model names a).json.toList, Text.IsAscii c) ∧
    ∃ entries, decode (model names a).json = some entries ∧
      (model names a).entries? = some entries ∧
      entries.map Prod.fst = (names.take (min names.length a.length)).eraseDups ∧
      (∀ name value, (name, value) ∈ entries ↔ IsLast (names.zip a) name value) ∧
      ∀ s : Solution, s.json = (model names a).json ↔ s.entries? = some entries := by
  have hobject := isObjectOf_entriesOf names a
  refine ⟨isAscii_of_mem_json names a, entriesOf names a, decode_json _, rfl, ?_,
    hobject.mem_iff, fun s => json_eq_json_iff s (model names a)⟩
  rw [hobject.names, map_fst_zip_eq_take]

/-- The second name has a quote and the third one two units. -/
example :
    (model ["é", "A\"", "😀", "é", "B"] [some 1, none, some (-12), some 0]).json =
      "\x7b\"\\u00e9\":0,\"A\\\"\":null,\"\\ud83d\\ude00\":-12\x7d" := by
  decide +kernel

end Solution

end CnfSolver
