import CnfSolver.Proofs.Formula.Encoding
import CnfSolver.Proofs.Text.Unbroken
import CnfSolver.Solution

/-!
# Models on a line

A model of distinct names is written with each name once, in the order of the names, and with its
value. With proper names this is one line, and in JSON it is one line whatever the names are.
-/

namespace CnfSolver

namespace Format

def bit (value : Bool) : String := if value then "1" else "0"

def object (separator : String) (parts : List String) : String :=
  "\x7b" ++ separator.intercalate parts ++ "\x7d"

def line (format : Format) (values : List (String × Bool)) : String :=
  match format with
  | string => object ", " (values.map fun (name, value) => name ++ " = " ++ bit value)
  | json => object "," (values.map fun (name, value) => Text.jsonString name ++ ":" ++ bit value)

open Text (IsUnbroken)

theorem toList_object (separator : String) (parts : List String) :
    (object separator parts).toList =
      '\x7b' :: (separator.toList.intercalate (parts.map String.toList) ++ ['\x7d']) := by
  rw [object, String.toList_append, String.toList_append, String.toList_intercalate]
  rfl

theorem isUnbroken_object {separator : String} (hseparator : IsUnbroken separator.toList)
    {parts : List String} (hparts : ∀ part ∈ parts, IsUnbroken part.toList) :
    IsUnbroken (object separator parts).toList := by
  rw [toList_object, ← List.singleton_append]
  apply IsUnbroken.append (by decide) (.append ?_ (by decide))
  apply hseparator.intercalate
  intro part hpart
  obtain ⟨s, hs, rfl⟩ := List.mem_map.1 hpart
  exact hparts s hs

theorem isUnbroken_bit (value : Bool) : IsUnbroken (bit value).toList := by
  cases value <;> decide

theorem isUnbroken_line (format : Format) {values : List (String × Bool)}
    (h : ∀ entry ∈ values, SignedName.IsProper entry.1) :
    IsUnbroken (format.line values).toList := by
  cases format with
  | string =>
      apply isUnbroken_object (by decide)
      intro part hpart
      obtain ⟨⟨name, value⟩, hentry, rfl⟩ := List.mem_map.1 hpart
      rw [String.toList_append, String.toList_append]
      have hname : IsUnbroken name.toList := by
        intro c hc hblank
        rw [(h _ hentry).not_blank c hc] at hblank
        exact nomatch hblank
      exact (hname.append (by decide)).append (isUnbroken_bit value)
  | json =>
      apply isUnbroken_object (by decide)
      intro part hpart
      obtain ⟨⟨name, value⟩, -, rfl⟩ := List.mem_map.1 hpart
      rw [String.toList_append, String.toList_append]
      have hname : IsUnbroken (Text.jsonString name).toList :=
        Text.isUnbroken_of_isAscii (Text.isAscii_of_mem_jsonString name)
      exact (hname.append (by decide)).append (isUnbroken_bit value)

end Format

namespace Solution

open Assignment (valuesOf)

theorem put_of_notMem {entries : List (String × Option Int)} {name : String}
    (h : name ∉ entries.map Prod.fst) (value : Option Int) :
    put entries name value = entries ++ [(name, value)] := by
  unfold put
  rw [if_neg]
  intro hany
  obtain ⟨entry, hentry, heq⟩ := List.any_eq_true.1 hany
  exact h (List.mem_map.2 ⟨entry, hentry, beq_iff_eq.1 heq⟩)

theorem foldl_put {entries pairs : List (String × Option Int)}
    (h : ((entries ++ pairs).map Prod.fst).Nodup) :
    pairs.foldl (fun entries (name, value) => put entries name value) entries =
      entries ++ pairs := by
  induction pairs generalizing entries with
  | nil => rw [List.append_nil]; rfl
  | cons pair pairs ih =>
      obtain ⟨name, value⟩ := pair
      have hnew : name ∉ entries.map Prod.fst := by
        rw [List.map_append, List.nodup_append] at h
        exact fun hmem => h.2.2 name hmem name List.mem_cons_self rfl
      have hassoc : entries ++ (name, value) :: pairs = entries ++ [(name, value)] ++ pairs := by
        rw [List.append_assoc, List.singleton_append]
      rw [hassoc] at h ⊢
      show pairs.foldl _ (put entries name value) = _
      rw [put_of_notMem hnew]
      exact ih h

theorem entriesOf_of_nodup {names : List String} (h : names.Nodup) {a : Assignment}
    (hlength : names.length ≤ a.length) : entriesOf names a = names.zip a := by
  have hnames : (names.zip a).map Prod.fst = names := List.map_fst_zip hlength
  apply foldl_put
  rw [List.nil_append, hnames]
  exact h

theorem entriesOf_valuesOf {names : List String} (h : names.Nodup) (value : String → Bool) :
    entriesOf names (valuesOf names value) =
      names.map fun name => (name, some (value name).toInt) := by
  have hlength := (Assignment.length_valuesOf names value).ge
  calc entriesOf names (valuesOf names value)
      = (names.map id).zip (names.map fun name => some (value name).toInt) := by
        rw [entriesOf_of_nodup h hlength, List.map_id, valuesOf]
    _ = names.map fun name => (name, some (value name).toInt) := List.zip_map'

theorem textValue_toInt (value : Bool) : textValue (some value.toInt) = Format.bit value := by
  cases value <;> rfl

theorem jsonValue_toInt (value : Bool) : jsonValue (some value.toInt) = Format.bit value := by
  cases value <;> rfl

theorem render_valuesOf {names : List String} (h : names.Nodup) (value : String → Bool)
    (format : Format) :
    (model names (valuesOf names value)).render format =
      format.line (names.map fun name => (name, value name)) := by
  cases format with
  | string =>
      simp only [render, text, braced, entriesOf_valuesOf h, List.map_map, Format.line,
        Format.object, Function.comp_def, textEntry, textValue_toInt]
  | json =>
      simp only [render, json, braced, entriesOf_valuesOf h, List.map_map, Format.line,
        Format.object, Function.comp_def, jsonEntry, jsonValue_toInt]

end Solution

end CnfSolver
