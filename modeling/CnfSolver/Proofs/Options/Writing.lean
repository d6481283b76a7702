import CnfSolver.Proofs.Options.Arguments
import CnfSolver.Proofs.Options.Settings
import Mathlib.Data.List.Basic

/-!
# Settings written as arguments

A setting is written as one argument, with the whole name of its flag behind two dashes and the
value behind an equals sign. It is read back whatever characters the value has, and in whatever
order settings are written, since nothing in a value can be taken for an option.
-/

namespace CnfSolver

/-! ## Upper case of letters -/

namespace Text

theorem toNat_lt_of_isUpper_toUpper {c : Char} (h : c.toUpper.isUpper = true) : c.toNat < 128 := by
  by_cases hlower : 'a'.val ≤ c.val ∧ c.val ≤ 'z'.val
  · exact Nat.lt_of_le_of_lt (UInt32.le_iff_toNat_le.1 hlower.2) (by decide)
  · have heq : c.toUpper = c := dif_neg hlower
    rw [heq] at h
    have hle : c.val ≤ 'Z'.val := (of_decide_eq_true h).2
    exact Nat.lt_of_le_of_lt (UInt32.le_iff_toNat_le.1 hle) (by decide)

theorem upperChar_of_isUpper_toUpper {c : Char} (h : c.toUpper.isUpper = true) :
    upperChar c = [c.toUpper] := by
  have hall : ∀ n < 128, (Char.ofNat n).toUpper.isUpper = true →
      upperChar (Char.ofNat n) = [(Char.ofNat n).toUpper] := by decide +kernel
  have hlt := toNat_lt_of_isUpper_toUpper h
  have hc := hall c.toNat hlt
  rw [Char.ofNat_toNat] at hc
  exact hc h

theorem upper_eq_of_map_toUpper {text name : String}
    (h : text.toList.map Char.toUpper = name.toList)
    (hname : ∀ c ∈ name.toList, c.isUpper = true) : upper text = name := by
  have hchars : ∀ c ∈ text.toList, upperChar c = [c.toUpper] := by
    intro c hc
    apply upperChar_of_isUpper_toUpper
    exact hname _ (by rw [← h]; exact List.mem_map_of_mem hc)
  rw [upper, List.flatMap_congr hchars, ← List.map_eq_flatMap, h, String.ofList_toList]

end Text

namespace Options

/-! ## One setting -/

theorem Flag.ofStart_name (flag : Flag) : Flag.ofStart flag.name.toList = [flag] := by
  cases flag <;> decide +kernel

theorem Flag.not_mem_name (flag : Flag) : '=' ∉ flag.name.toList := by
  cases flag <;> decide +kernel

theorem classify_of_name {text : String} {flag : Flag}
    (h : text.toList = '-' :: '-' :: flag.name.toList) :
    classify text = .ok (.long flag none) := by
  rw [classify_eq_long_iff]
  refine ⟨_, h, ?_⟩
  rw [splitEquals_of_not_mem flag.not_mem_name]
  exact ⟨flag.ofStart_name, rfl⟩

theorem classify_of_name_of_value {text : String} {flag : Flag} {value : List Char}
    (h : text.toList = '-' :: '-' :: (flag.name.toList ++ '=' :: value)) :
    classify text = .ok (.long flag (some value)) := by
  rw [classify_eq_long_iff]
  refine ⟨_, h, ?_⟩
  rw [splitEquals_append flag.not_mem_name]
  exact ⟨flag.ofStart_name, rfl⟩

namespace Setting

def write (s : Setting) : String :=
  match s.value with
  | some value => "--" ++ s.flag.name ++ "=" ++ value
  | none => if s.flag.takesValue then "--" ++ s.flag.name ++ "=--" else "--" ++ s.flag.name

/-- There is a value only if the flag takes one, and it is not the two dashes that leave a value
out. -/
def IsWritable (s : Setting) : Prop :=
  if s.flag.takesValue then s.value ≠ some "--" else s.value = none

/-- What is written is the name of the flag, and nothing in the value is looked at. -/
theorem exists_classify_write {s : Setting} (h : s.IsWritable) :
    ∃ behind, classify s.write = .ok (.long s.flag behind) ∧
      (Argument.long s.flag behind).read = .ok ⟨[s], none, []⟩ := by
  obtain ⟨flag, value⟩ := s
  rw [IsWritable] at h
  cases htakes : flag.takesValue with
  | false =>
      rw [htakes] at h
      obtain rfl : value = none := h
      refine ⟨none, classify_of_name ?_, ?_⟩
      · simp [write, htakes]
      · rw [Argument.read, readBare, htakes]
        rfl
  | true =>
      rw [htakes] at h
      have hread (text : List Char) : (Argument.long flag (some text)).read =
          .ok ⟨[⟨flag, joinedValue text⟩], none, []⟩ := readJoined_eq_ok_iff.2 ⟨htakes, rfl⟩
      cases value with
      | none =>
          refine ⟨some ['-', '-'], classify_of_name_of_value ?_, hread _⟩
          simp [write, htakes]
      | some text =>
          have hne : text.toList ≠ ['-', '-'] := fun heq =>
            h (congrArg some (String.toList_inj.1 (heq.trans (by decide))))
          refine ⟨some text.toList, classify_of_name_of_value ?_, ?_⟩
          · simp [write]
          · rw [hread, joinedValue, if_neg hne, String.ofList_toList]

end Setting

variable {settings : List Setting} {o : Options}

theorem madeBy_map_write (h : ∀ s ∈ settings, s.IsWritable) :
    MadeBy (settings.map Setting.write) settings := by
  induction settings with
  | nil => exact madeBy_nil
  | cons s settings ih =>
      obtain ⟨hs, hrest⟩ := List.forall_mem_cons.1 h
      obtain ⟨behind, hclassify, hread⟩ := Setting.exists_classify_write hs
      exact (ih hrest).cons hclassify (fun h => nomatch h) hread

theorem parse_map_write_eq_ok_iff (h : ∀ s ∈ settings, s.IsWritable) :
    parse (settings.map Setting.write) = .ok o ↔ IsAllowed settings ∧ o = collected settings := by
  rw [(madeBy_map_write h).parse_eq]
  exact foldlM_set_eq_ok_iff

/-! ## One source and what goes with it -/

/-- Values that name one choice at most. -/
inductive Names {α : Type} (IsName : String → α → Prop) : List (Option String) → Option α → Prop
  | nothing : Names IsName [] none
  | one {name : String} {a : α} (h : IsName name a) : Names IsName [some name] (some a)

def IsLevelName (name : String) (level : Level) : Prop :=
  name.toList.map Char.toUpper = level.name.toList

/-- In any order, the settings give inputs and clauses, in their order, and a format, the check and
a level once at most, and nothing else. -/
structure Gives (settings : List Setting) (input clause : List String) (format : Option Format)
    (check : Bool) (level : Option Level) : Prop where
  input_eq : given .input settings = input.map some
  clause_eq : given .clause settings = clause.map some
  format_names : Names (fun name format => name = format.name) (given .format settings) format
  check_eq : given .check settings = if check then [none] else []
  level_names : Names IsLevelName (given .logLevel settings) level
  no_bench : given .bench settings = []
  no_help : given .help settings = []

section Names

variable {α : Type} {IsName : String → α → Prop} {ofName? : String → Option α} {choice : Option α}
  {values : List (Option String)}

theorem Names.chosen_eq (h : Names IsName values choice)
    (hof : ∀ name a, IsName name a → ofName? name = some a) (default : α) :
    chosen ofName? default values = some (choice.getD default) := by
  cases h with
  | nothing => rfl
  | one hname => exact hof _ _ hname

theorem Names.exists_of_mem (h : Names IsName values choice) {value : Option String}
    (hmem : value ∈ values) : ∃ name a, value = some name ∧ IsName name a := by
  cases h with
  | nothing => exact nomatch hmem
  | one hname => exact ⟨_, _, List.mem_singleton.1 hmem, hname⟩

theorem Names.ne_none_of_mem (h : Names IsName values choice)
    (hof : ∀ name a, IsName name a → ofName? name = some a) (name : String)
    (hmem : some name ∈ values) : ofName? name ≠ none := by
  obtain ⟨name', a, heq, hname⟩ := h.exists_of_mem hmem
  obtain rfl := Option.some.inj heq
  rw [hof name a hname]
  exact Option.some_ne_none a

end Names

theorem ofName?_of_eq_name (name : String) (format : Format) (h : name = format.name) :
    Format.ofName? name = some format := by
  subst h
  cases format <;> decide

theorem levelOfName?_of_isLevelName (name : String) (level : Level) (h : IsLevelName name level) :
    levelOfName? name = some level := by
  have hupper : level.name.toList.all Char.isUpper = true := by cases level <;> decide +kernel
  rw [levelOfName?, Text.upper_eq_of_map_toUpper h (List.all_eq_true.1 hupper)]
  cases level <;> decide

namespace Gives

variable {input clause : List String} {format : Option Format} {check : Bool}
  {level : Option Level}

theorem isAllowed (h : Gives settings input clause format check level)
    (hone : input = [] ∨ clause = []) : IsAllowed settings where
  no_help := h.no_help
  input_or_clause := by
    rw [h.input_eq, h.clause_eq, List.map_eq_nil_iff, List.map_eq_nil_iff]
    exact hone
  input_or_bench := .inr h.no_bench
  clause_or_bench := .inr h.no_bench
  formats := h.format_names.ne_none_of_mem ofName?_of_eq_name
  levels := h.level_names.ne_none_of_mem levelOfName?_of_isLevelName

theorem collected_eq (h : Gives settings input clause format check level) :
    collected settings = ⟨input.map some, clause.map some, none, some (format.getD .string), check,
      some (level.getD .warning)⟩ := by
  rw [collected, h.input_eq, h.clause_eq, h.no_bench, h.check_eq,
    h.format_names.chosen_eq ofName?_of_eq_name,
    h.level_names.chosen_eq levelOfName?_of_isLevelName]
  cases check <;> rfl

theorem isWritable (h : Gives settings input clause format check level) (hinput : "--" ∉ input)
    (hclause : "--" ∉ clause) {s : Setting} (hs : s ∈ settings) : s.IsWritable := by
  obtain ⟨flag, value⟩ := s
  have hgiven : value ∈ given flag settings := mem_given.2 hs
  cases flag with
  | help =>
      rw [h.no_help] at hgiven
      exact nomatch hgiven
  | bench =>
      rw [h.no_bench] at hgiven
      exact nomatch hgiven
  | input =>
      rw [h.input_eq] at hgiven
      rintro rfl
      obtain ⟨value, hvalue, heq⟩ := List.mem_map.1 hgiven
      obtain rfl := Option.some.inj heq
      exact hinput hvalue
  | clause =>
      rw [h.clause_eq] at hgiven
      rintro rfl
      obtain ⟨value, hvalue, heq⟩ := List.mem_map.1 hgiven
      obtain rfl := Option.some.inj heq
      exact hclause hvalue
  | check =>
      rw [h.check_eq] at hgiven
      cases check with
      | false => exact nomatch hgiven
      | true => exact List.mem_singleton.1 hgiven
  | format =>
      rintro rfl
      obtain ⟨name, format', heq, hname⟩ := h.format_names.exists_of_mem hgiven
      obtain rfl := Option.some.inj heq
      exact absurd hname (by cases format' <;> decide)
  | logLevel =>
      rintro rfl
      obtain ⟨name, level', heq, hname⟩ := h.level_names.exists_of_mem hgiven
      obtain rfl := Option.some.inj heq
      rw [IsLevelName] at hname
      exact absurd hname (by cases level' <;> decide)

end Gives

/-- All that is given is read back: every value of the source in its order, and the format, the
check and the level, or the defaults in their place. -/
theorem parse_map_write {input clause : List String} {format : Option Format} {check : Bool}
    {level : Option Level} (h : Gives settings input clause format check level)
    (hone : input = [] ∨ clause = []) (hinput : "--" ∉ input) (hclause : "--" ∉ clause) :
    parse (settings.map Setting.write) = .ok ⟨input.map some, clause.map some, none,
      some (format.getD .string), check, some (level.getD .warning)⟩ := by
  rw [parse_map_write_eq_ok_iff fun s hs => h.isWritable hinput hclause hs, h.collected_eq]
  exact ⟨h.isAllowed hone, rfl⟩

/-- Empty values, values that look like options or numbers, and values with blanks and equals signs
stand among the other settings. -/
theorem parse_map_write_of_six_clauses :
    let argv := ["--clause=", "--log-level=dEbUg", "--clause=-x", "--clause=--format=xml",
      "--check", "--clause=a=b c\nd", "--clause=-1", "--format=json", "--clause=-- "]
    let clause := ["", "-x", "--format=xml", "a=b c\nd", "-1", "-- "]
    parse argv = .ok ⟨[], clause.map some, none, some .json, true, some .debug⟩ := by
  intro argv clause
  let settings : List Setting := [⟨.clause, some ""⟩, ⟨.logLevel, some "dEbUg"⟩,
    ⟨.clause, some "-x"⟩, ⟨.clause, some "--format=xml"⟩, ⟨.check, none⟩,
    ⟨.clause, some "a=b c\nd"⟩, ⟨.clause, some "-1"⟩, ⟨.format, some "json"⟩,
    ⟨.clause, some "-- "⟩]
  have hwrite : settings.map Setting.write = argv := by decide +kernel
  have hgives : Gives settings [] clause (some .json) true (some .debug) := by
    refine ⟨by decide, by decide, .one rfl, by decide, .one ?_, by decide, by decide⟩
    unfold IsLevelName
    decide +kernel
  rw [← hwrite]
  exact parse_map_write hgives (.inl rfl) (by decide) (by decide)

end Options

end CnfSolver
