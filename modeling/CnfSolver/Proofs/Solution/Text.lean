import CnfSolver.Proofs.Solution.Json

/-!
# Models as equations

In a list of equations the names stand as they are, so a name may look like a brace, a comma, an
equals sign or a whole equation. But no name holds a space: the name goes up to the first space, the
value is one digit, and the character behind it says whether there is another equation. So the list
determines the names and their values.
-/

namespace CnfSolver

/-- A list determines what is in front of its first separator and what is behind it. -/
theorem append_cons_inj {α : Type} {separator : α} {xs ys us vs : List α} (hxs : separator ∉ xs)
    (hys : separator ∉ ys) (h : xs ++ separator :: us = ys ++ separator :: vs) :
    xs = ys ∧ us = vs := by
  induction xs generalizing ys with
  | nil =>
    cases ys with
    | nil => exact ⟨rfl, (List.cons.inj h).2⟩
    | cons y ys =>
      obtain rfl := (List.cons.inj h).1
      exact absurd List.mem_cons_self hys
  | cons x xs ih =>
    cases ys with
    | nil =>
      obtain rfl := (List.cons.inj h).1
      exact absurd List.mem_cons_self hxs
    | cons y ys =>
      obtain ⟨rfl, htail⟩ := List.cons.inj h
      obtain ⟨rfl, hrest⟩ := ih (fun hmem => hxs (List.mem_cons_of_mem _ hmem))
        (fun hmem => hys (List.mem_cons_of_mem _ hmem)) htail
      exact ⟨rfl, hrest⟩

namespace Format

def equation (entry : String × Bool) : List Char := (entry.1 ++ " = " ++ bit entry.2).toList

def moreEquations : List (String × Bool) → List Char
  | [] => ['\x7d']
  | entry :: values => ',' :: ' ' :: (equation entry ++ moreEquations values)

def equations : List (String × Bool) → List Char
  | [] => ['\x7d']
  | entry :: values => equation entry ++ moreEquations values

theorem intercalate_equation (entry : String × Bool) (values : List (String × Bool)) :
    [',', ' '].intercalate ((entry :: values).map equation) ++ ['\x7d'] =
      equation entry ++ moreEquations values := by
  induction values generalizing entry with
  | nil => rw [List.map_singleton, List.intercalate_singleton, moreEquations]
  | cons second values ih =>
    rw [List.map_cons, List.map_cons, List.intercalate_cons_cons, List.append_assoc,
      ← List.map_cons, ih, moreEquations, List.append_assoc]
    rfl

theorem toList_line_string (values : List (String × Bool)) :
    (string.line values).toList = '\x7b' :: equations values := by
  rw [line, toList_object, List.map_map]
  cases values with
  | nil => rfl
  | cons entry values => exact congrArg ('\x7b' :: ·) (intercalate_equation entry values)

/-! ## Taking equations apart -/

theorem equation_append (entry : String × Bool) (rest : List Char) :
    equation entry ++ rest =
      entry.1.toList ++ ' ' :: '=' :: ' ' :: (if entry.2 then '1' else '0') :: rest := by
  rw [equation, String.toList_append, String.toList_append, List.append_assoc, List.append_assoc]
  cases entry.2 with
  | false => rfl
  | true => rfl

theorem equation_append_inj {entry entry' : String × Bool} (h : ' ' ∉ entry.1.toList)
    (h' : ' ' ∉ entry'.1.toList) {rest rest' : List Char}
    (heq : equation entry ++ rest = equation entry' ++ rest') : entry = entry' ∧ rest = rest' := by
  obtain ⟨name, value⟩ := entry
  obtain ⟨name', value'⟩ := entry'
  rw [equation_append, equation_append] at heq
  obtain ⟨hname, hvalue⟩ := append_cons_inj h h' heq
  obtain rfl := String.toList_inj.1 hname
  simp only [List.cons.injEq, true_and] at hvalue
  obtain ⟨hdigit, rfl⟩ := hvalue
  have hbit : ∀ v v' : Bool, (if v then '1' else '0') = (if v' then '1' else '0') → v = v' := by
    decide
  exact ⟨by rw [hbit value value' hdigit], rfl⟩

theorem moreEquations_injective {values values' : List (String × Bool)}
    (h : ∀ entry ∈ values, ' ' ∉ entry.1.toList) (h' : ∀ entry ∈ values', ' ' ∉ entry.1.toList)
    (heq : moreEquations values = moreEquations values') : values = values' := by
  induction values generalizing values' with
  | nil =>
    cases values' with
    | nil => rfl
    | cons entry' values' => exact absurd (List.cons.inj heq).1 (by decide)
  | cons entry values ih =>
    cases values' with
    | nil => exact absurd (List.cons.inj heq).1 (by decide)
    | cons entry' values' =>
      obtain ⟨hentry, hvalues⟩ := List.forall_mem_cons.1 h
      obtain ⟨hentry', hvalues'⟩ := List.forall_mem_cons.1 h'
      have hequations := (List.cons.inj (List.cons.inj heq).2).2
      obtain ⟨rfl, hmore⟩ := equation_append_inj hentry hentry' hequations
      rw [ih hvalues hvalues' hmore]

theorem equations_injective {values values' : List (String × Bool)}
    (h : ∀ entry ∈ values, ' ' ∉ entry.1.toList) (h' : ∀ entry ∈ values', ' ' ∉ entry.1.toList)
    (heq : equations values = equations values') : values = values' := by
  -- with a comma and a space in front, it is the list of more equations, unless there is none
  have hlong : ∀ (entry : String × Bool) values, equations (entry :: values) ≠ ['\x7d'] := by
    intro entry values hbrace
    have hlength := congrArg List.length hbrace
    simp only [equations, equation_append, List.length_append, List.length_cons,
      List.length_nil] at hlength
    omega
  cases values with
  | nil =>
    cases values' with
    | nil => rfl
    | cons entry' values' => exact absurd heq.symm (hlong entry' values')
  | cons entry values =>
    cases values' with
    | nil => exact absurd heq (hlong entry values)
    | cons entry' values' =>
      apply moreEquations_injective h h'
      exact congrArg (',' :: ' ' :: ·) heq

theorem line_string_injective {values values' : List (String × Bool)}
    (h : ∀ entry ∈ values, ' ' ∉ entry.1.toList) (h' : ∀ entry ∈ values', ' ' ∉ entry.1.toList)
    (heq : string.line values = string.line values') : values = values' := by
  have hlist := congrArg String.toList heq
  rw [toList_line_string, toList_line_string] at hlist
  exact equations_injective h h' (List.cons.inj hlist).2

end Format

namespace Solution

open Assignment (valuesOf)
open SignedName (IsProper)

variable {names names' : List String}

theorem forall_space_notMem (h : ∀ name ∈ names, IsProper name) (value : String → Bool) :
    ∀ entry ∈ names.map fun name => (name, value name), ' ' ∉ entry.1.toList := by
  rw [List.forall_mem_map]
  intro name hname hspace
  exact absurd ((h name hname).not_blank ' ' hspace) (by decide)

/-- The equations of distinct proper names are the same only for the same names and values. -/
theorem text_valuesOf_inj (hnodup : names.Nodup) (hproper : ∀ name ∈ names, IsProper name)
    (hnodup' : names'.Nodup) (hproper' : ∀ name ∈ names', IsProper name)
    (value value' : String → Bool) :
    (model names (valuesOf names value)).text = (model names' (valuesOf names' value')).text ↔
      names = names' ∧ valuesOf names value = valuesOf names' value' := by
  constructor
  · intro h
    have hline : Format.string.line (names.map fun name => (name, value name)) =
        Format.string.line (names'.map fun name => (name, value' name)) := by
      rw [← render_valuesOf hnodup value .string, ← render_valuesOf hnodup' value' .string]
      exact h
    have hvalues := Format.line_string_injective (forall_space_notMem hproper value)
      (forall_space_notMem hproper' value') hline
    refine ⟨?_, ?_⟩
    · simpa [Function.comp_def] using congrArg (List.map Prod.fst) hvalues
    · simpa [valuesOf, Function.comp_def] using
        congrArg (List.map fun entry => some entry.2.toInt) hvalues
  · rintro ⟨rfl, hvalues⟩
    rw [hvalues]

theorem json_inj (hnodup : names.Nodup) (hnodup' : names'.Nodup) {m m' : Assignment}
    (hlength : m.length = names.length) (hlength' : m'.length = names'.length) :
    (model names m).json = (model names' m').json ↔ names = names' ∧ m = m' := by
  rw [json_eq_json_iff, entries?, entries?, entriesOf_of_nodup hnodup hlength.ge,
    entriesOf_of_nodup hnodup' hlength'.ge, Option.some.injEq]
  constructor
  · intro h
    have hunzip := congrArg List.unzip h
    rw [List.unzip_zip hlength.symm, List.unzip_zip hlength'.symm] at hunzip
    exact Prod.mk.inj hunzip
  · rintro ⟨rfl, rfl⟩
    rfl

end Solution

end CnfSolver
