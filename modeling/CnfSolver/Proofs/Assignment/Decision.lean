import CnfSolver.Proofs.Assignment.Truth

/-!
# Deciding a variable

A literal with an entry is true, false or open, and only one of these. Giving a value to an open
variable turns one literal false, the one that the value falsifies, and one literal true, its
negation. All others are as true or false as before, so only the clauses that watch that one literal
need a look.
-/

namespace CnfSolver

variable {a : Assignment}

namespace Literal

/-- The literal's variable has an entry, but no value. -/
def IsOpen (l : Literal) (a : Assignment) : Prop := Index.get? a l.var = some none

def HasOneTruth (l : Literal) (a : Assignment) : Prop :=
  (l.isTrue? a = some true ∧ l.isFalse? a = some false ∧ ¬l.IsOpen a) ∨
  (l.isTrue? a = some false ∧ l.isFalse? a = some true ∧ ¬l.IsOpen a) ∨
  (l.isTrue? a = some false ∧ l.isFalse? a = some false ∧ l.IsOpen a)

end Literal

namespace Assignment

/-- From `a` to `a'`, of the literals on their variables, `f` alone turns false and its negation
alone turns true. -/
structure TurnsFalse (a a' : Assignment) (f : Literal) : Prop where
  newlyFalse_iff : ∀ l : Literal,
    l.InRange a.length ∧ l.isFalse? a = some false ∧ l.isFalse? a' = some true ↔ l = f
  newlyTrue_iff : ∀ l : Literal,
    l.InRange a.length ∧ l.isTrue? a = some false ∧ l.isTrue? a' = some true ↔ l = f.negate
  isFalse?_eq : ∀ l : Literal, l.InRange a.length → l ≠ f → l.isFalse? a' = l.isFalse? a
  isTrue?_eq : ∀ l : Literal, l.InRange a.length → l ≠ f.negate → l.isTrue? a' = l.isTrue? a

theorem IsThreeValued.set (ha : a.IsThreeValued) (v : Nat) (value : Bool) :
    IsThreeValued (a.set v (some value.toInt)) := by
  intro x hx
  rcases List.mem_or_eq_of_mem_set hx with hx | rfl
  · exact ha x hx
  · cases value with
    | false => exact .inr (.inl rfl)
    | true => exact .inr (.inr rfl)

end Assignment

namespace Literal

variable {l : Literal} {v : Nat}

/-! ## One truth -/

theorem isFalse?_of_isOpen (h : l.IsOpen a) : l.isFalse? a = some false := by
  rw [isFalse?, h]
  rfl

theorem isTrue?_of_isOpen (h : l.IsOpen a) : l.isTrue? a = some false := by
  rw [isTrue?, h]
  rfl

theorem hasOneTruth (hlow : -(a.length : Int) ≤ l.var) (hhigh : l.var < a.length) :
    l.HasOneTruth a := by
  obtain ⟨x, hx⟩ := Index.exists_get? hlow hhigh
  cases x with
  | none => exact .inr (.inr ⟨isTrue?_of_isOpen hx, isFalse?_of_isOpen hx, hx⟩)
  | some v =>
      have hopen : ¬l.IsOpen a := by simp [IsOpen, hx]
      by_cases hsign : v = l.sign
      · exact .inr (.inl ⟨by simp [isTrue?, hx, hsign], by simp [isFalse?, hx, hsign], hopen⟩)
      · exact .inl ⟨by simp [isTrue?, hx, hsign], by simp [isFalse?, hx, hsign], hopen⟩

theorem isTrue?_eq_isFalse?_negate (ha : a.IsThreeValued) (l : Literal) :
    l.isTrue? a = l.negate.isFalse? a := by
  rw [isTrue?, isFalse?, var_negate, sign_negate]
  cases hx : Index.get? a l.var with
  | none => rfl
  | some x =>
      obtain ⟨k, -, hk⟩ := Index.get?_eq_some.1 hx
      rcases ha x (List.mem_of_getElem? hk) with rfl | rfl | rfl
      · rfl
      all_goals rcases l.sign_eq_zero_or_one with hsign | hsign <;> rw [hsign] <;> rfl

/-! ## One value more -/

theorem inRange_negate_iff {n : Nat} : l.negate.InRange n ↔ l.InRange n := by
  simp only [InRange, negate, sign]
  omega

/-- The literals on other variables keep their entry, and the other literal on the variable was open
and is true now. -/
theorem isFalse?_set_of_ne (hv : a[v]? = some none) (hl : l.InRange a.length) {value : Bool}
    (hne : l ≠ of v value) : l.isFalse? (a.set v (some value.toInt)) = l.isFalse? a := by
  have hlt : v < a.length := (List.getElem?_eq_some_iff.1 hv).1
  by_cases hvar : l.var = v
  · have hopen : l.IsOpen a := by rw [IsOpen, hvar, Index.get?_natCast, hv]
    have hother : l = (of v value).negate :=
      (eq_or_eq_negate_of_var_eq (by rw [hvar, var_of])).resolve_left hne
    rw [isFalse?_of_isOpen hopen, isFalse?, get?_set_of_var_eq hvar hlt, hother, sign_negate,
      sign_of]
    cases value <;> rfl
  · rw [isFalse?, isFalse?, get?_set_of_var_ne hl hvar]

theorem newlyFalse_set_iff (hv : a[v]? = some none) (value : Bool) :
    l.InRange a.length ∧ l.isFalse? a = some false ∧
      l.isFalse? (a.set v (some value.toInt)) = some true ↔ l = of v value := by
  have hlt : v < a.length := (List.getElem?_eq_some_iff.1 hv).1
  constructor
  · rintro ⟨hl, hbefore, hafter⟩
    by_contra hne
    rw [isFalse?_set_of_ne hv hl hne, hbefore] at hafter
    exact nomatch hafter
  · rintro rfl
    have hrange := inRange_of hlt value
    have hopen : (of v value).IsOpen a := by rw [IsOpen, var_of, Index.get?_natCast, hv]
    exact ⟨hrange, isFalse?_of_isOpen hopen, (isFalse?_set hrange rfl hlt value).2 (.inl rfl)⟩

/-- What turns true is read off what turns false: a literal is true where its negation is false. -/
theorem turnsFalse_set (ha : a.IsThreeValued) (hv : a[v]? = some none) (value : Bool) :
    a.TurnsFalse (a.set v (some value.toInt)) (of v value) where
  newlyFalse_iff _ := newlyFalse_set_iff hv value
  newlyTrue_iff l := by
    rw [isTrue?_eq_isFalse?_negate ha, isTrue?_eq_isFalse?_negate (ha.set v value),
      ← inRange_negate_iff, newlyFalse_set_iff hv, negate_eq_iff]
  isFalse?_eq _ hl hne := isFalse?_set_of_ne hv hl hne
  isTrue?_eq l hl hne := by
    rw [isTrue?_eq_isFalse?_negate ha, isTrue?_eq_isFalse?_negate (ha.set v value)]
    exact isFalse?_set_of_ne hv (inRange_negate_iff.2 hl) (mt negate_eq_iff.1 hne)

/-- Every integer is the code of one variable and sign, as the bits of two's complement spell them,
and the literal that a value falsifies has the value as its sign. Under the values 0 and 1 a literal
has one truth, its variable being counted from either end. An open variable that gets a value turns
just the falsified literal false and just its negation true. -/
theorem codes_and_truth :
    (∀ (v : Int) (b : Bool),
      (of v b).code = Int.lor (v <<< (1 : Nat)) b.toInt ∧
      (of v b).var = v ∧ (of v b).isNegated = b ∧ falsifiedBy v b.toInt = of v b) ∧
    (∀ l : Literal,
      l.var = l.code >>> (1 : Nat) ∧ l.isNegated = (Int.land l.code 1 != 0) ∧
      l.negate.code = Int.xor l.code 1 ∧
      of l.var l.isNegated = l ∧ l.negate.negate = l ∧
      l.negate.var = l.var ∧ l.negate.isNegated = !l.isNegated) ∧
    (∀ a : Assignment, a.IsThreeValued →
      (∀ l : Literal, -(a.length : Int) ≤ l.var → l.var < a.length →
        l.HasOneTruth a ∧ l.isTrue? a = l.negate.isFalse? a) ∧
      (∀ (v : Nat) (b : Bool), a[v]? = some none →
        ∃ a', Index.set? a v (some b.toInt) = some a' ∧
          a.TurnsFalse a' (falsifiedBy v b.toInt))) := by
  refine ⟨fun v b => ⟨code_of v b, var_of v b, isNegated_of v b, falsifiedBy_toInt v b⟩,
    fun l => ⟨var_eq_shiftRight l, ?_, code_negate l, of_var_isNegated l, negate_negate l,
      var_negate l, isNegated_negate l⟩,
    fun a ha => ⟨fun l hlow hhigh => ⟨hasOneTruth hlow hhigh, isTrue?_eq_isFalse?_negate ha l⟩,
      fun v b hv => ⟨a.set v (some b.toInt), ?_, ?_⟩⟩⟩
  · rw [← sign_eq_land, ← toInt_isNegated]
    cases l.isNegated <;> rfl
  · exact Index.set?_natCast (List.getElem?_eq_some_iff.1 hv).1 _
  · rw [falsifiedBy_toInt]
    exact turnsFalse_set ha hv b

/-- The last of three variables is counted from the end, and the middle one gets the value 1. -/
theorem codes_and_truth_of_three :
    let a : Assignment := [some 0, none, some 1]
    falsifiedBy (-1) 1 = of (-1) true ∧ of (-1) false = ⟨-2⟩ ∧
      a.IsThreeValued ∧ (-(a.length : Int) ≤ -1 ∧ -1 < (a.length : Int)) ∧
      HasOneTruth ⟨-2⟩ a ∧ isTrue? ⟨-2⟩ a = some true ∧ isFalse? ⟨-1⟩ a = some true ∧
      a[1]? = some none ∧ a.TurnsFalse [some 0, some 1, some 1] ⟨3⟩ := by
  intro a
  have ha : a.IsThreeValued := by decide
  have hopen : a[1]? = some none := rfl
  have htrue : isTrue? ⟨-2⟩ a = some true := by decide
  obtain ⟨hcodes, hliterals, htruths⟩ := codes_and_truth
  obtain ⟨-, -, -, hfalsified⟩ := hcodes (-1) true
  obtain ⟨-, -, -, hof, -⟩ := hliterals ⟨-2⟩
  obtain ⟨htruth, hturns⟩ := htruths a ha
  obtain ⟨hone, hnegation⟩ := htruth ⟨-2⟩ (by decide) (by decide)
  refine ⟨hfalsified, hof, ha, by decide, hone, htrue, hnegation.symm.trans htrue, hopen, ?_⟩
  obtain ⟨a', hset, hfalse⟩ := hturns 1 true hopen
  obtain rfl : [some 0, some 1, some 1] = a' := Option.some.inj hset
  exact hfalse

end Literal

end CnfSolver
