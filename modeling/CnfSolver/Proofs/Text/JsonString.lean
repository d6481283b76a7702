import CnfSolver.Text.Quoting
import Mathlib.Data.List.Basic

/-!
# Reading JSON strings

A JSON string is read as UTF-16 units first. A character stands for its own units, unless it is the
double quote, the backslash or a control character, and an escape stands for one unit. Then the
units are put together to characters, a surrogate pair to one. So every string is read back from
what is written for it, whatever it holds, also next to text that looks like an escape.
-/

namespace CnfSolver.Text

/-! ## UTF-16 -/

def IsHigh (unit : Nat) : Prop := 0xD800 ≤ unit ∧ unit < 0xDC00

def IsLow (unit : Nat) : Prop := 0xDC00 ≤ unit ∧ unit < 0xE000

instance : DecidablePred IsHigh := fun _ => inferInstanceAs (Decidable (_ ∧ _))

instance : DecidablePred IsLow := fun _ => inferInstanceAs (Decidable (_ ∧ _))

def ofPair (high low : Nat) : Char :=
  Char.ofNat (0x10000 + (high - 0xD800) * 0x400 + (low - 0xDC00))

/-- The characters that units make up. A surrogate without its partner makes up none. -/
def ofUtf16? : List Nat → Option (List Char)
  | [] => some []
  | [unit] => if IsHigh unit ∨ IsLow unit then none else some [Char.ofNat unit]
  | unit :: next :: units =>
      if IsHigh unit ∧ IsLow next then (ofUtf16? units).map (ofPair unit next :: ·)
      else if IsHigh unit ∨ IsLow unit then none
      else (ofUtf16? (next :: units)).map (Char.ofNat unit :: ·)

theorem ofUtf16?_cons {unit : Nat} (h : ¬(IsHigh unit ∨ IsLow unit)) (units : List Nat) :
    ofUtf16? (unit :: units) = (ofUtf16? units).map (Char.ofNat unit :: ·) := by
  cases units with
  | nil => exact if_neg h
  | cons next units => rw [ofUtf16?, if_neg fun hpair => h (.inl hpair.1), if_neg h]

theorem isValidChar_toNat (c : Char) : c.toNat < 0xD800 ∨ 0xDFFF < c.toNat ∧ c.toNat < 0x110000 :=
  c.valid

theorem ofUtf16?_utf16_append (c : Char) (units : List Nat) :
    ofUtf16? (utf16 c ++ units) = (ofUtf16? units).map (c :: ·) := by
  have hvalid := isValidChar_toNat c
  unfold utf16
  split
  · have hnot : ¬(IsHigh c.toNat ∨ IsLow c.toNat) := by
      unfold IsHigh IsLow
      omega
    rw [List.singleton_append, ofUtf16?_cons hnot, Char.ofNat_toNat]
  · have hpair : IsHigh (0xD800 + (c.toNat - 0x10000) / 0x400) ∧
        IsLow (0xDC00 + (c.toNat - 0x10000) % 0x400) := by
      unfold IsHigh IsLow
      omega
    have hchar : ofPair (0xD800 + (c.toNat - 0x10000) / 0x400)
        (0xDC00 + (c.toNat - 0x10000) % 0x400) = c := by
      have hnat : 0x10000 + (0xD800 + (c.toNat - 0x10000) / 0x400 - 0xD800) * 0x400 +
          (0xDC00 + (c.toNat - 0x10000) % 0x400 - 0xDC00) = c.toNat := by
        omega
      rw [ofPair, hnat, Char.ofNat_toNat]
    rw [List.cons_append, List.singleton_append, ofUtf16?, if_pos hpair, hchar]

/-- Every text is made up of its units. -/
theorem ofUtf16?_flatMap_utf16 (cs : List Char) : ofUtf16? (cs.flatMap utf16) = some cs := by
  induction cs with
  | nil => rfl
  | cons c cs ih => rw [List.flatMap_cons, ofUtf16?_utf16_append, ih, Option.map_some]

/-! ## Escapes -/

def hexDigit? (c : Char) : Option Nat :=
  if '0' ≤ c ∧ c ≤ '9' then some (c.toNat - '0'.toNat)
  else if 'a' ≤ c ∧ c ≤ 'f' then some (c.toNat - 'a'.toNat + 10)
  else if 'A' ≤ c ∧ c ≤ 'F' then some (c.toNat - 'A'.toNat + 10)
  else none

def hexUnit? (a b c d : Char) : Option Nat := do
  let a ← hexDigit? a
  let b ← hexDigit? b
  let c ← hexDigit? c
  let d ← hexDigit? d
  return 0x1000 * a + 0x100 * b + 0x10 * c + d

def escaped? : Char → Option Nat
  | '"' => some 0x22
  | '\\' => some 0x5C
  | '/' => some 0x2F
  | 'b' => some 0x08
  | 'f' => some 0x0C
  | 'n' => some 0x0A
  | 'r' => some 0x0D
  | 't' => some 0x09
  | _ => none

/-- The units of a string up to its closing quote, and what is behind it. -/
def readUnits : List Char → Option (List Nat × List Char)
  | [] => none
  | '"' :: cs => some ([], cs)
  | '\\' :: 'u' :: a :: b :: c :: d :: cs =>
      (hexUnit? a b c d).bind fun unit =>
        (readUnits cs).map fun (units, cs) => (unit :: units, cs)
  | '\\' :: c :: cs =>
      (escaped? c).bind fun unit =>
        (readUnits cs).map fun (units, cs) => (unit :: units, cs)
  | c :: cs =>
      if c = '\\' ∨ c.toNat < 0x20 then none
      else (readUnits cs).map fun (units, cs) => (utf16 c ++ units, cs)

def readString : List Char → Option (String × List Char)
  | '"' :: cs =>
      (readUnits cs).bind fun (units, cs) =>
        (ofUtf16? units).map fun chars => (String.ofList chars, cs)
  | _ => none

theorem hexDigit?_digitChar : ∀ d, d < 16 → hexDigit? (Nat.digitChar d) = some d := by
  decide

theorem hex_succ {width : Nat} (hwidth : 1 ≤ width) (n : Nat) :
    hex (width + 1) n = hex width (n / 16) ++ [Nat.digitChar (n % 16)] := by
  unfold hex
  rcases Nat.lt_or_ge n 16 with hn | hn
  · rw [Nat.toDigits_of_lt_base hn, Nat.div_eq_of_lt hn, Nat.mod_eq_of_lt hn]
    obtain ⟨width, rfl⟩ := Nat.exists_eq_add_of_le' hwidth
    simp [List.replicate_succ', Nat.toDigits_zero]
  · rw [Nat.toDigits_of_base_le (by decide) hn]
    simp

theorem hex_four {n : Nat} (h : n < 0x10000) :
    hex 4 n = [Nat.digitChar (n / 0x1000), Nat.digitChar (n / 0x100 % 16),
      Nat.digitChar (n / 0x10 % 16), Nat.digitChar (n % 16)] := by
  have hlead : n / 16 / 16 / 16 < 16 := by omega
  rw [hex_succ (by decide), hex_succ (by decide), hex_succ (by decide), hex,
    Nat.toDigits_of_lt_base hlead]
  simp [Nat.div_div_eq_div_mul]

theorem hexUnit?_hex_four {n : Nat} (h : n < 0x10000) :
    hexUnit? (Nat.digitChar (n / 0x1000)) (Nat.digitChar (n / 0x100 % 16))
      (Nat.digitChar (n / 0x10 % 16)) (Nat.digitChar (n % 16)) = some n := by
  have hsum : 0x1000 * (n / 0x1000) + 0x100 * (n / 0x100 % 16) + 0x10 * (n / 0x10 % 16) + n % 16 =
      n := by
    omega
  simp only [hexUnit?]
  rw [hexDigit?_digitChar _ (by omega), hexDigit?_digitChar _ (by omega),
    hexDigit?_digitChar _ (by omega), hexDigit?_digitChar _ (by omega)]
  simp [hsum]

/-! ## Reading back -/

theorem lt_of_mem_utf16 {c : Char} {unit : Nat} (h : unit ∈ utf16 c) : unit < 0x10000 := by
  have hvalid := isValidChar_toNat c
  unfold utf16 at h
  split at h
  · obtain rfl := List.mem_singleton.mp h
    assumption
  · simp only [List.mem_cons, List.not_mem_nil, or_false] at h
    omega

theorem readUnits_unit {unit : Nat} (h : unit < 0x10000) (cs : List Char) :
    readUnits ('\\' :: 'u' :: hex 4 unit ++ cs) =
      (readUnits cs).map fun (units, cs) => (unit :: units, cs) := by
  rw [hex_four h]
  simp only [List.cons_append, List.nil_append, readUnits]
  rw [hexUnit?_hex_four h, Option.bind_some]

theorem readUnits_units {units : List Nat} (h : ∀ unit ∈ units, unit < 0x10000) (cs : List Char) :
    readUnits ((units.flatMap fun unit => '\\' :: 'u' :: hex 4 unit) ++ cs) =
      (readUnits cs).map fun (rest, cs) => (units ++ rest, cs) := by
  induction units with
  | nil => simp
  | cons unit units ih =>
    have hunits := ih fun other hother => h other (List.mem_cons_of_mem _ hother)
    rw [List.flatMap_cons, List.append_assoc, readUnits_unit (h unit List.mem_cons_self), hunits,
      Option.map_map]
    rfl

theorem readUnits_letter {c : Char} {unit : Nat} (h : escaped? c = some unit) (cs : List Char) :
    readUnits ('\\' :: c :: cs) = (readUnits cs).map fun (units, cs) => (unit :: units, cs) := by
  have hc : c ≠ 'u' := by
    rintro rfl
    cases h
  rw [readUnits, h, Option.bind_some]
  exact fun _ _ _ _ _ hu _ => hc hu

theorem readUnits_plain {c : Char} (hquote : c ≠ '"') (hslash : c ≠ '\\') (h : 0x20 ≤ c.toNat)
    (cs : List Char) :
    readUnits (c :: cs) = (readUnits cs).map fun (units, cs) => (utf16 c ++ units, cs) := by
  have hplain : ¬(c = '\\' ∨ c.toNat < 0x20) := by
    rintro (hc | hc)
    · exact hslash hc
    · omega
  rw [readUnits, if_neg hplain]
  · exact hquote
  · exact fun _ _ _ _ _ hc _ => hslash hc
  · exact fun _ _ hc _ => hslash hc

theorem readUnits_escapeJson (c : Char) (cs : List Char) :
    readUnits (escapeJson c ++ cs) =
      (readUnits cs).map fun (units, cs) => (utf16 c ++ units, cs) := by
  unfold escapeJson
  split_ifs with hself hn hr ht hf hb hprint
  · rcases Bool.or_eq_true_iff.mp hself with hc | hc <;> obtain rfl := beq_iff_eq.mp hc
    · exact readUnits_letter rfl cs
    · exact readUnits_letter rfl cs
  · obtain rfl := beq_iff_eq.mp hn
    exact readUnits_letter rfl cs
  · obtain rfl := beq_iff_eq.mp hr
    exact readUnits_letter rfl cs
  · obtain rfl := beq_iff_eq.mp ht
    exact readUnits_letter rfl cs
  · obtain rfl : c = Char.ofNat 0x0C := by rw [← beq_iff_eq.mp hf, Char.ofNat_toNat]
    exact readUnits_letter rfl cs
  · obtain rfl : c = Char.ofNat 0x08 := by rw [← beq_iff_eq.mp hb, Char.ofNat_toNat]
    exact readUnits_letter rfl cs
  · simp only [Bool.or_eq_true, beq_iff_eq, not_or] at hself
    simp only [Bool.and_eq_true, decide_eq_true_eq] at hprint
    exact readUnits_plain hself.1 hself.2 hprint.1 cs
  · exact readUnits_units (fun unit hunit => lt_of_mem_utf16 hunit) cs

theorem readUnits_flatMap_escapeJson (cs rest : List Char) :
    readUnits (cs.flatMap escapeJson ++ '"' :: rest) = some (cs.flatMap utf16, rest) := by
  induction cs with
  | nil => rfl
  | cons c cs ih =>
    rw [List.flatMap_cons, List.append_assoc, readUnits_escapeJson, ih]
    rfl

/-- Every string is read back, whatever is behind it. -/
theorem readString_jsonString (s : String) (rest : List Char) :
    readString ((jsonString s).toList ++ rest) = some (s, rest) := by
  have hunits : readUnits (s.toList.flatMap escapeJson ++ ['"'] ++ rest) =
      some (s.toList.flatMap utf16, rest) := by
    rw [List.append_assoc]
    exact readUnits_flatMap_escapeJson s.toList rest
  rw [jsonString, String.toList_ofList, List.cons_append, List.cons_append, readString, hunits,
    Option.bind_some]
  simp only [ofUtf16?_flatMap_utf16, Option.map_some, String.ofList_toList]

/-- Text that looks like an escape, next to characters that are escaped. -/
example : readString (jsonString "\\u0041\"\x7f😀").toList = some ("\\u0041\"\x7f😀", []) := by
  decide +kernel

end CnfSolver.Text
