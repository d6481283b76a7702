import CnfSolver.Proofs.Options.Arguments
import CnfSolver.Proofs.Options.Settings

/-!
# One source at most

Options come from settings that are allowed together, so there is no source beside another one. A
format or a level is missing only where an argument leaves it out: two dashes stand there in place
of the value.
-/

namespace CnfSolver.Options

variable {argv : List String} {settings : List Setting} {o : Options} {flag : Flag}

structure IsExclusive (o : Options) : Prop where
  input_or_clause : o.input = [] ∨ o.clause = []
  input_or_bench : o.input = [] ∨ o.bench = none
  clause_or_bench : o.clause = [] ∨ o.bench = none

theorem IsAllowed.isExclusive (h : IsAllowed settings) : (collected settings).IsExclusive where
  input_or_clause := h.input_or_clause
  input_or_bench := h.input_or_bench.imp_right List.getLast?_eq_none_iff.2
  clause_or_bench := h.clause_or_bench.imp_right List.getLast?_eq_none_iff.2

theorem isExclusive_of_parse (h : parse argv = .ok o) : o.IsExclusive := by
  obtain ⟨settings, -, hallowed, rfl⟩ := parse_eq_ok_iff.1 h
  exact hallowed.isExclusive

/-! ## Values that are left out -/

/-- The argument spells the flag, by its letter or by the start of its name, with two dashes in
place of the value. -/
inductive LeavesOut (flag : Flag) : List Char → Prop
  | letter {c : Char} (h : Flag.ofLetter? c = some flag) : LeavesOut flag ['-', c, '-', '-']
  | letterEquals {c : Char} (h : Flag.ofLetter? c = some flag) :
      LeavesOut flag ['-', c, '=', '-', '-']
  | name {start : List Char} (h : Flag.ofStart start = [flag]) :
      LeavesOut flag ('-' :: '-' :: start ++ ['=', '-', '-'])

/-- If a flag that takes a value is set without one, and no help is asked for beside it, the
argument leaves the value out. -/
theorem leavesOut_of_read {text : String} {argument : Argument} {r : Reading}
    (hclassify : classify text = .ok argument) (hread : argument.read = .ok r)
    (hhelp : ⟨.help, none⟩ ∉ r.settings) (hflag : flag.takesValue = true)
    (hmem : ⟨flag, none⟩ ∈ r.settings) : LeavesOut flag text.toList := by
  have hjoined {flag' : Flag} {value : List Char} (h : readJoined flag' value = .ok r) :
      flag' = flag ∧ value = ['-', '-'] := by
    obtain ⟨-, rfl⟩ := readJoined_eq_ok_iff.1 h
    obtain ⟨rfl, hnone⟩ := Setting.mk.inj (List.mem_singleton.1 hmem)
    exact ⟨rfl, joinedValue_eq_none_iff.1 hnone.symm⟩
  match argument, hread with
  | .plain _, hread | .dashes, hread | .unknown _, hread =>
      obtain rfl := Except.ok.inj hread
      exact nomatch hmem
  | .short flag' none, hread | .long flag' none, hread =>
      obtain rfl := Except.ok.inj hread
      exact absurd hmem (not_mem_readBare hflag flag')
  | .short flag' (some value), hread =>
      obtain ⟨c, cs, htext, hletter, hbehind⟩ := exists_of_classify_eq_short hclassify
      rw [htext]
      rcases takesValue_of_ofLetter? hletter with rfl | htakes
      · exact absurd (mem_of_readLetters rfl hread) hhelp
      · obtain ⟨rfl, rfl⟩ := hjoined ((readLetters_of_takesValue htakes value).symm.trans hread)
        rcases hbehind _ rfl with rfl | rfl
        · exact .letter hletter
        · exact .letterEquals hletter
  | .long flag' (some value), hread =>
      obtain ⟨rfl, rfl⟩ := hjoined hread
      obtain ⟨cs, htext, hstart, hbehind⟩ := classify_eq_long_iff.1 hclassify
      rw [htext, eq_append_of_splitEquals hbehind]
      exact .name hstart

theorem exists_leavesOut (hmade : MadeBy argv settings) (hallowed : IsAllowed settings)
    (hflag : flag.takesValue = true) (hmem : none ∈ given flag settings) :
    ∃ text ∈ argv, LeavesOut flag text.toList := by
  obtain ⟨arguments, hclassify, hmakes⟩ := hmade
  obtain ⟨argument, hargument, r, hread, hsub, hin⟩ :=
    hmakes.exists_of_mem (mem_given.1 hmem)
  have hhelp : ⟨.help, none⟩ ∉ r.settings := by
    intro h
    have hgiven : none ∈ given .help settings := mem_given.2 (hsub h)
    rw [hallowed.no_help] at hgiven
    exact nomatch hgiven
  obtain ⟨text, htext, htaken | rfl⟩ := mem_of_classifyAll hclassify hargument
  · exact ⟨text, htext, leavesOut_of_read htaken hread hhelp hflag hin⟩
  · obtain rfl := Except.ok.inj hread
    exact nomatch hin

theorem none_mem_of_chosen {α : Type} {ofName? : String → Option α} {default : α}
    {values : List (Option String)} (hknown : ∀ name, some name ∈ values → ofName? name ≠ none)
    (h : chosen ofName? default values = none) : none ∈ values := by
  cases hlast : values.getLast? with
  | none =>
      rw [chosen, hlast] at h
      exact absurd h (Option.some_ne_none default)
  | some value =>
      have hmem : value ∈ values := List.mem_of_getLast? hlast
      rw [chosen, hlast] at h
      cases value with
      | none => exact hmem
      | some name => exact absurd h (hknown name hmem)

end CnfSolver.Options
