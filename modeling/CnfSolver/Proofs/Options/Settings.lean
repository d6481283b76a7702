import CnfSolver.Options
import CnfSolver.Proofs.Traversal
import Mathlib.Data.List.Induction
import Mathlib.Tactic.MkIffOfInductiveProp
import Mathlib.Tactic.Tauto

/-!
# The settings that arguments make

Arguments are read one after the other, and each makes settings. A command line is accepted if and
only if its arguments make settings that are allowed together, and the options are what these
settings give: every source that is named, in order, and the last value of everything else.
-/

namespace CnfSolver.Options

theorem ite_eq_ok_iff {α : Type} {c : Bool} {a b : α} {stop : Stop} :
    (if c then .ok a else .error stop : Except Stop α) = .ok b ↔ c = true ∧ b = a := by
  cases c with
  | false => simp
  | true => simp [eq_comm]

/-! ## From arguments to settings -/

/-- The settings that arguments make, in order. An argument is read alone, or with the plain one
behind it as the value that its flag waits for. -/
inductive Makes : List Argument → List Setting → Prop
  | nil : Makes [] []
  | alone {argument : Argument} {arguments : List Argument} {made settings : List Setting}
      (hread : argument.read = .ok ⟨made, none, []⟩) (hrest : Makes arguments settings) :
      Makes (argument :: arguments) (made ++ settings)
  | waiting {argument : Argument} {value : String} {arguments : List Argument} {flag : Flag}
      {made settings : List Setting} (hread : argument.read = .ok ⟨made, some flag, []⟩)
      (hrest : Makes arguments settings) :
      Makes (argument :: .plain value :: arguments) (made ++ ⟨flag, some value⟩ :: settings)

variable {arguments : List Argument} {leftover : List String} {o o' : Options}

theorem exists_makes_of_consume (h : consume o leftover arguments = .ok o') :
    leftover = [] ∧ ∃ settings, Makes arguments settings ∧ settings.foldlM set o = .ok o' := by
  fun_induction consume o leftover arguments with
  | case1 o leftover hleftover => exact ⟨List.isEmpty_iff.1 hleftover, [], .nil, h⟩
  | case2 => exact nomatch h
  | case3 => exact nomatch h
  | case4 o leftover argument r hread rest hwaiting ih =>
      obtain ⟨next, hnext, hrest⟩ := bind_eq_ok_iff.1 h
      obtain ⟨hnil, settings, hmakes, hfold⟩ := ih next hrest
      obtain ⟨hleftover, hr⟩ := List.append_eq_nil_iff.1 hnil
      refine ⟨hleftover, r.settings ++ settings, .alone ?_ hmakes, ?_⟩
      · rw [hread, ← hwaiting, ← hr]
      · rw [List.foldlM_append]
        exact bind_eq_ok_iff.2 ⟨next, hnext, hfold⟩
  | case5 o leftover argument r hread flag value rest hwaiting ih =>
      obtain ⟨next, hnext, hrest⟩ := bind_eq_ok_iff.1 h
      obtain ⟨hnil, settings, hmakes, hfold⟩ := ih next hrest
      obtain ⟨hleftover, hr⟩ := List.append_eq_nil_iff.1 hnil
      refine ⟨hleftover, r.settings ++ ⟨flag, some value⟩ :: settings, .waiting ?_ hmakes, ?_⟩
      · rw [hread, ← hwaiting, ← hr]
      · rw [List.append_cons, List.foldlM_append]
        exact bind_eq_ok_iff.2 ⟨next, hnext, hfold⟩
  | case6 => exact nomatch h

theorem Makes.consume_eq {settings : List Setting} (h : Makes arguments settings) (o : Options) :
    consume o [] arguments = settings.foldlM set o := by
  induction h generalizing o with
  | nil => rfl
  | @alone argument arguments made settings hread hrest ih =>
      rw [consume, hread, List.foldlM_append]
      exact congrArg _ (funext ih)
  | @waiting argument value arguments flag made settings hread hrest ih =>
      rw [consume, hread, List.append_cons, List.foldlM_append]
      exact congrArg _ (funext ih)

/-- A setting without a value is made by an argument on its own. -/
theorem Makes.exists_of_mem {settings : List Setting} (h : Makes arguments settings) {flag : Flag}
    (hmem : ⟨flag, none⟩ ∈ settings) :
    ∃ argument ∈ arguments, ∃ r, argument.read = .ok r ∧ r.settings ⊆ settings ∧
      ⟨flag, none⟩ ∈ r.settings := by
  induction h with
  | nil => exact nomatch hmem
  | @alone argument arguments made settings hread hrest ih =>
      rcases List.mem_append.1 hmem with hmade | hlater
      · exact ⟨argument, List.mem_cons_self, _, hread, List.subset_append_left _ _, hmade⟩
      · obtain ⟨argument', hargument, r, hr, hsub, hin⟩ := ih hlater
        exact ⟨argument', List.mem_cons_of_mem _ hargument, r, hr,
          fun s hs => List.mem_append_right _ (hsub hs), hin⟩
  | @waiting argument value arguments flag' made settings hread hrest ih =>
      rcases List.mem_append.1 hmem with hmade | hlater
      · exact ⟨argument, List.mem_cons_self, _, hread, List.subset_append_left _ _, hmade⟩
      · obtain ⟨argument', hargument, r, hr, hsub, hin⟩ :=
          ih ((List.mem_cons.1 hlater).resolve_left fun heq => nomatch heq)
        have hafter : r.settings ⊆ made ++ ⟨flag', some value⟩ :: settings :=
          fun s hs => List.mem_append_right _ (List.mem_cons_of_mem _ (hsub hs))
        exact ⟨argument', List.mem_cons_of_mem _ (List.mem_cons_of_mem _ hargument), r, hr, hafter,
          hin⟩

def MadeBy (argv : List String) (settings : List Setting) : Prop :=
  ∃ arguments, classifyAll argv = .ok arguments ∧ Makes arguments settings

variable {argv : List String} {settings : List Setting}

theorem madeBy_nil : MadeBy [] [] := ⟨[], rfl, .nil⟩

theorem MadeBy.cons {text : String} {argument : Argument} {made : List Setting}
    (hclassify : classify text = .ok argument) (hdashes : argument ≠ .dashes)
    (hread : argument.read = .ok ⟨made, none, []⟩) (h : MadeBy argv settings) :
    MadeBy (text :: argv) (made ++ settings) := by
  obtain ⟨arguments, hrest, hmakes⟩ := h
  refine ⟨argument :: arguments, ?_, .alone hread hmakes⟩
  rw [classifyAll, hclassify]
  cases argument with
  | dashes => exact absurd rfl hdashes
  | plain | short | long | unknown => simp only [hrest]

theorem MadeBy.parse_eq (h : MadeBy argv settings) : parse argv = settings.foldlM set default := by
  obtain ⟨arguments, hclassify, hmakes⟩ := h
  rw [parse, hclassify]
  exact hmakes.consume_eq default

theorem exists_madeBy_of_parse (h : parse argv = .ok o) :
    ∃ settings, MadeBy argv settings ∧ settings.foldlM set default = .ok o := by
  unfold parse at h
  split at h
  · exact nomatch h
  · obtain ⟨-, settings, hmakes, hfold⟩ := exists_makes_of_consume h
    exact ⟨settings, ⟨_, ‹_›, hmakes⟩, hfold⟩

/-! ## From settings to options -/

def given (flag : Flag) (settings : List Setting) : List (Option String) :=
  (settings.filter (·.flag == flag)).map (·.value)

@[simp] theorem given_nil (flag : Flag) : given flag [] = [] := rfl

theorem given_append (flag : Flag) (settings settings' : List Setting) :
    given flag (settings ++ settings') = given flag settings ++ given flag settings' := by
  rw [given, List.filter_append, List.map_append]
  rfl

@[simp] theorem given_concat (flag : Flag) (settings : List Setting) (s : Setting) :
    given flag (settings ++ [s]) =
      given flag settings ++ if s.flag = flag then [s.value] else [] := by
  rw [given_append]
  by_cases h : s.flag = flag <;> simp [given, h]

theorem mem_given {flag : Flag} {value : Option String} :
    value ∈ given flag settings ↔ ⟨flag, value⟩ ∈ settings := by
  rw [given, List.mem_map]
  constructor
  · rintro ⟨s, hs, rfl⟩
    obtain ⟨hmem, hflag⟩ := List.mem_filter.1 hs
    obtain rfl := beq_iff_eq.1 hflag
    exact hmem
  · exact fun hmem => ⟨_, List.mem_filter.2 ⟨hmem, beq_self_eq_true _⟩, rfl⟩

/-- What the last value names, and the default if there is none. -/
def chosen {α : Type} (ofName? : String → Option α) (default : α) (values : List (Option String)) :
    Option α :=
  match values.getLast? with
  | none => some default
  | some value => value.bind ofName?

@[simp] theorem chosen_concat {α : Type} (ofName? : String → Option α) (default : α)
    (values : List (Option String)) (value : Option String) :
    chosen ofName? default (values ++ [value]) = value.bind ofName? := by
  rw [chosen, List.getLast?_concat]

def levelOfName? (name : String) : Option Level := Level.ofName? (Text.upper name)

def collected (settings : List Setting) : Options where
  input := given .input settings
  clause := given .clause settings
  bench := (given .bench settings).getLast?
  format := chosen Format.ofName? .string (given .format settings)
  check := given .check settings ≠ []
  logLevel := chosen levelOfName? .default (given .logLevel settings)

/-- No help is asked for, there is one kind of source at most, and every format and level that is
named is known. -/
@[mk_iff]
structure IsAllowed (settings : List Setting) : Prop where
  no_help : given .help settings = []
  input_or_clause : given .input settings = [] ∨ given .clause settings = []
  input_or_bench : given .input settings = [] ∨ given .bench settings = []
  clause_or_bench : given .clause settings = [] ∨ given .bench settings = []
  formats : ∀ name, some name ∈ given .format settings → Format.ofName? name ≠ none
  levels : ∀ name, some name ∈ given .logLevel settings → levelOfName? name ≠ none

def Follows (settings : List Setting) (s : Setting) : Prop :=
  match s.flag with
  | .help => False
  | .check => True
  | .input => given .clause settings = [] ∧ given .bench settings = []
  | .clause => given .input settings = [] ∧ given .bench settings = []
  | .bench => given .input settings = [] ∧ given .clause settings = []
  | .format => ∀ name, s.value = some name → Format.ofName? name ≠ none
  | .logLevel => ∀ name, s.value = some name → levelOfName? name ≠ none

theorem isAllowed_concat (settings : List Setting) (s : Setting) :
    IsAllowed (settings ++ [s]) ↔ IsAllowed settings ∧ Follows settings s := by
  obtain ⟨flag, value⟩ := s
  simp only [isAllowed_iff, given_concat]
  cases flag with
  | help => simp [Follows]
  | check => simp [Follows]
  | input => simp [Follows]; tauto
  | clause => simp [Follows]; tauto
  | bench => simp [Follows]; tauto
  | format => simp [Follows, or_imp, forall_and, @eq_comm _ _ value]; tauto
  | logLevel => simp [Follows, or_imp, forall_and, @eq_comm _ _ value]; tauto

theorem set_collected_eq_ok_iff {s : Setting} :
    set (collected settings) s = .ok o ↔
      Follows settings s ∧ o = collected (settings ++ [s]) := by
  obtain ⟨flag, value⟩ := s
  cases flag with
  | help => simp [set, Follows]
  | check =>
      rw [set, Except.ok.injEq, eq_comm]
      simp [Follows, collected]
  | input =>
      rw [set, ite_eq_ok_iff]
      simp [Follows, collected]
  | clause =>
      rw [set, ite_eq_ok_iff]
      simp [Follows, collected]
  | bench =>
      rw [set, ite_eq_ok_iff]
      simp [Follows, collected]
  | format =>
      cases value with
      | none => simp [set, Follows, collected, @eq_comm _ _ o]
      | some name =>
          cases hname : Format.ofName? name with
          | none => simp [set, Follows, hname]
          | some format => simp [set, Follows, collected, hname, @eq_comm _ _ o]
  | logLevel =>
      cases value with
      | none => simp [set, Follows, collected, @eq_comm _ _ o]
      | some name =>
          cases hname : Level.ofName? (Text.upper name) with
          | none => simp [set, Follows, levelOfName?, hname]
          | some level => simp [set, Follows, collected, levelOfName?, hname, @eq_comm _ _ o]

/-- A setting is refused under its own flag, because of another source or because its value is none
of the choices. -/
theorem complaint_of_set {s : Setting} {complaint : Complaint}
    (h : set o s = .error (.usage complaint)) :
    (∃ other, other ≠ s.flag ∧ complaint = .conflict s.flag other) ∨
      ∃ value, value ∉ s.flag.choices ∧ complaint = .unknownValue s.flag value := by
  obtain ⟨flag, value⟩ := s
  cases flag with
  | help | check => exact nomatch h
  | input | clause | bench =>
      simp only [set] at h
      split at h
      · exact nomatch h
      · obtain rfl := Stop.usage.inj (Except.error.inj h)
        exact .inl ⟨_, by split <;> exact nofun, rfl⟩
  | format =>
      simp only [set] at h
      split at h
      · exact nomatch h
      · split at h
        · exact nomatch h
        · next hname =>
          obtain rfl := Stop.usage.inj (Except.error.inj h)
          refine .inr ⟨_, ?_, rfl⟩
          simpa [Flag.choices, Format.ofName?] using hname
  | logLevel =>
      simp only [set] at h
      split at h
      · exact nomatch h
      · split at h
        · exact nomatch h
        · next hname =>
          obtain rfl := Stop.usage.inj (Except.error.inj h)
          refine .inr ⟨_, ?_, rfl⟩
          simpa [Flag.choices, Level.ofName?] using hname

theorem foldlM_set_eq_ok_iff :
    settings.foldlM set default = .ok o ↔ IsAllowed settings ∧ o = collected settings := by
  induction settings using List.reverseRecOn generalizing o with
  | nil =>
      have hnone : IsAllowed [] := by simp [isAllowed_iff]
      constructor
      · exact fun h => ⟨hnone, (Except.ok.inj h).symm⟩
      · rintro ⟨-, rfl⟩
        rfl
  | append_singleton settings s ih =>
      have hstep : (settings ++ [s]).foldlM set default =
          (settings.foldlM set default).bind fun o => set o s := by
        rw [List.foldlM_append]
        exact congrArg _ (funext fun o => bind_pure _)
      rw [hstep, bind_eq_ok_iff, isAllowed_concat]
      constructor
      · rintro ⟨before, hbefore, hs⟩
        obtain ⟨hallowed, rfl⟩ := ih.1 hbefore
        obtain ⟨hfollows, rfl⟩ := set_collected_eq_ok_iff.1 hs
        exact ⟨⟨hallowed, hfollows⟩, rfl⟩
      · rintro ⟨⟨hallowed, hfollows⟩, rfl⟩
        exact ⟨_, ih.2 ⟨hallowed, rfl⟩, set_collected_eq_ok_iff.2 ⟨hfollows, rfl⟩⟩

/-- A command line is accepted if and only if it makes settings that are allowed together, and then
they give the options. -/
theorem parse_eq_ok_iff :
    parse argv = .ok o ↔
      ∃ settings, MadeBy argv settings ∧ IsAllowed settings ∧ o = collected settings := by
  constructor
  · intro h
    obtain ⟨settings, hmade, hfold⟩ := exists_madeBy_of_parse h
    exact ⟨settings, hmade, foldlM_set_eq_ok_iff.1 hfold⟩
  · rintro ⟨settings, hmade, hallowed⟩
    rw [hmade.parse_eq]
    exact foldlM_set_eq_ok_iff.2 hallowed

end CnfSolver.Options
