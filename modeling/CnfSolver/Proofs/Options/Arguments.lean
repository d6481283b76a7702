import CnfSolver.Options
import CnfSolver.Proofs.Traversal
import Mathlib.Data.List.TakeWhile

/-!
# Arguments by themselves

An argument spells a flag by its letter or by the start of its name, and what stands behind it tells
whether the value is there. The lemmas go from the text of an argument to the flag and back.
-/

namespace CnfSolver.Options

variable {text : String} {flag : Flag} {start cs : List Char} {behind : Option (List Char)}

/-! ## Splitting at the equals sign -/

theorem splitEquals_append (h : '=' ∉ start) (cs : List Char) :
    splitEquals (start ++ '=' :: cs) = (start, some cs) := by
  have hall : ∀ c ∈ start, (c != '=') = true := fun c hc => bne_iff_ne.2 (ne_of_mem_of_not_mem hc h)
  rw [splitEquals, List.takeWhile_append_of_pos hall, List.dropWhile_append_of_pos hall]
  simp

theorem splitEquals_of_not_mem (h : '=' ∉ start) : splitEquals start = (start, none) := by
  have hall : ∀ c ∈ start, (c != '=') = true := fun c hc => bne_iff_ne.2 (ne_of_mem_of_not_mem hc h)
  rw [splitEquals, List.takeWhile_eq_self_iff.2 hall, List.dropWhile_eq_nil_iff.2 hall]
  rfl

theorem eq_append_of_splitEquals {value : List Char} (h : (splitEquals cs).2 = some value) :
    cs = (splitEquals cs).1 ++ '=' :: value := by
  simp only [splitEquals] at h ⊢
  induction cs with
  | nil => exact nomatch h
  | cons c cs ih =>
      by_cases hc : c = '='
      · subst hc
        obtain rfl := Option.some.inj h
        rfl
      · have hne : (c != '=') = true := bne_iff_ne.2 hc
        rw [List.dropWhile_cons, if_pos hne] at h
        rw [List.takeWhile_cons, if_pos hne, List.cons_append, ← ih h]

/-! ## Spellings -/

theorem withoutFlag_ne (cs : List Char) (flag : Flag) (behind : Option (List Char)) :
    withoutFlag cs ≠ .short flag behind ∧ withoutFlag cs ≠ .long flag behind := by
  rw [withoutFlag]
  split <;> exact ⟨nofun, nofun⟩

theorem classify_eq_long_iff :
    classify text = .ok (.long flag behind) ↔ ∃ cs, text.toList = '-' :: '-' :: cs ∧
      Flag.ofStart (splitEquals cs).1 = [flag] ∧ (splitEquals cs).2 = behind := by
  constructor
  · intro h
    unfold classify at h
    split at h
    case h_1 => exact nomatch h
    case h_2 cs hdashes htext =>
      refine ⟨cs, htext, ?_⟩
      simp only at h
      split at h
      case h_1 => exact absurd (Except.ok.inj h) (withoutFlag_ne _ _ _).2
      case h_2 hstart =>
        obtain ⟨rfl, hbehind⟩ := Argument.long.inj (Except.ok.inj h)
        exact ⟨hstart, hbehind⟩
      case h_3 => exact nomatch h
    case h_3 =>
      split at h
      · exact absurd (Except.ok.inj h) (withoutFlag_ne _ _ _).2
      · exact nomatch Except.ok.inj h
    case h_4 => exact nomatch h
  · rintro ⟨cs, htext, hstart, rfl⟩
    unfold classify
    cases cs with
    | nil => exact absurd hstart (by cases flag <;> decide)
    | cons c cs => simp only [htext, hstart]

theorem exists_of_classify_eq_short (h : classify text = .ok (.short flag behind)) :
    ∃ c cs, text.toList = '-' :: c :: cs ∧ Flag.ofLetter? c = some flag ∧
      ∀ value, behind = some value → cs = value ∨ cs = '=' :: value := by
  unfold classify at h
  split at h
  case h_1 => exact nomatch h
  case h_2 cs hdashes htext =>
    simp only at h
    split at h
    case h_1 => exact absurd (Except.ok.inj h) (withoutFlag_ne _ _ _).1
    case h_2 => exact nomatch Except.ok.inj h
    case h_3 => exact nomatch h
  case h_3 c cs hdashes hletter htext =>
    refine ⟨c, cs, htext, ?_⟩
    split at h
    case h_1 => exact absurd (Except.ok.inj h) (withoutFlag_ne _ _ _).1
    case h_2 flag' hflag =>
      obtain ⟨rfl, rfl⟩ := Argument.short.inj (Except.ok.inj h)
      refine ⟨hflag, fun value hvalue => ?_⟩
      split at hvalue
      · exact nomatch hvalue
      · exact .inr (congrArg _ (Option.some.inj hvalue))
      · exact .inl (Option.some.inj hvalue)
  case h_4 => exact nomatch h

theorem mem_of_classifyAll {argv : List String} {arguments : List Argument} {argument : Argument}
    (h : classifyAll argv = .ok arguments) (hmem : argument ∈ arguments) :
    ∃ text ∈ argv, classify text = .ok argument ∨ argument = .plain text := by
  fun_induction classifyAll argv generalizing arguments with
  | case1 =>
      obtain rfl := Except.ok.inj h
      exact nomatch hmem
  | case2 => exact nomatch h
  | case3 text texts hdashes =>
      obtain rfl := Except.ok.inj h
      rcases List.mem_cons.1 hmem with rfl | hplain
      · exact ⟨text, List.mem_cons_self, .inl hdashes⟩
      · obtain ⟨text', htext', rfl⟩ := List.mem_map.1 hplain
        exact ⟨text', List.mem_cons_of_mem _ htext', .inr rfl⟩
  | case4 => exact nomatch h
  | case5 text texts argument' hne hclassify arguments' harguments ih =>
      obtain rfl := Except.ok.inj h
      rcases List.mem_cons.1 hmem with rfl | hrest
      · exact ⟨text, List.mem_cons_self, .inl hclassify⟩
      · obtain ⟨text', htext', hcause⟩ := ih harguments hrest
        exact ⟨text', List.mem_cons_of_mem _ htext', hcause⟩

/-! ## Readings -/

theorem takesValue_of_ofLetter? {c : Char} (h : Flag.ofLetter? c = some flag) :
    flag = .help ∨ flag.takesValue = true := by
  have hall : ∀ entry ∈ Flag.letters, entry.2 = .help ∨ entry.2.takesValue = true := by decide
  rw [Flag.ofLetter?, List.lookup_eq_some_iff] at h
  obtain ⟨before, after, hletters, -⟩ := h
  exact hall (c, flag) (by rw [hletters]; exact List.mem_append_right _ List.mem_cons_self)

theorem not_mem_readBare (h : flag.takesValue = true) (flag' : Flag) :
    ⟨flag, none⟩ ∉ (readBare flag').settings := by
  rw [readBare]
  split
  · exact List.not_mem_nil
  · intro hmem
    obtain ⟨rfl, -⟩ := Setting.mk.inj (List.mem_singleton.1 hmem)
    contradiction

theorem joinedValue_eq_none_iff : joinedValue cs = none ↔ cs = ['-', '-'] := by
  rw [joinedValue]
  split <;> simp_all

theorem readJoined_eq_ok_iff {r : Reading} :
    readJoined flag cs = .ok r ↔
      flag.takesValue = true ∧ r = ⟨[⟨flag, joinedValue cs⟩], none, []⟩ := by
  rw [readJoined]
  cases flag.takesValue <;> simp [eq_comm]

theorem readLetters_of_takesValue (h : flag.takesValue = true) (cs : List Char) :
    readLetters flag cs = readJoined flag cs := by
  cases cs with
  | nil => rfl
  | cons c cs => rw [readLetters, if_pos h]

/-- A flag that takes no value is set before the letters behind it are read. -/
theorem mem_of_readLetters {r : Reading} (hflag : flag.takesValue = false)
    (h : readLetters flag cs = .ok r) : ⟨flag, none⟩ ∈ r.settings := by
  cases cs with
  | nil =>
      obtain ⟨htakes, -⟩ := readJoined_eq_ok_iff.1 h
      rw [hflag] at htakes
      exact nomatch htakes
  | cons c cs =>
      rw [readLetters, hflag] at h
      simp only [Bool.false_eq_true, if_false] at h
      split at h
      · exact nomatch h
      · obtain ⟨reading, -, rfl⟩ := exists_of_map_eq_ok h
        exact List.mem_cons_self

end CnfSolver.Options
