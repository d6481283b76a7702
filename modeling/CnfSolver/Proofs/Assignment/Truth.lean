import CnfSolver.Assignment
import CnfSolver.Proofs.Literal
import Mathlib.Data.List.Forall2

/-!
# Truth under partial assignments

What it means for a literal to be on one of the variables, for a clause to be false, and for an
assignment to fill in another one. Filling in keeps false literals false, and once every variable
has a value a formula is satisfied as soon as none of its clauses is false.
-/

namespace CnfSolver

namespace Index

variable {α : Type}

theorem get?_natCast (xs : List α) (k : Nat) : get? xs (k : Int) = xs[k]? := by
  unfold get?
  by_cases h : k < xs.length
  · rw [place?_natCast h, Option.bind_some]
  · rw [place?_eq_none.2 (.inr (by omega)), Option.bind_none, List.getElem?_eq_none (by omega)]

theorem set?_natCast {xs : List α} {k : Nat} (h : k < xs.length) (x : α) :
    set? xs (k : Int) x = some (xs.set k x) := by
  unfold set?
  rw [place?_natCast h, Option.map_some]

theorem get?_eq_some {xs : List α} {i : Int} {x : α} :
    get? xs i = some x ↔ ∃ k, place? xs.length i = some k ∧ xs[k]? = some x := by
  unfold get?
  exact Option.bind_eq_some_iff

theorem exists_get? {xs : List α} {i : Int} (hlow : -(xs.length : Int) ≤ i)
    (hhigh : i < xs.length) : ∃ x, get? xs i = some x := by
  obtain ⟨k, hplace⟩ := exists_place hlow hhigh
  have hk := (place?_eq_some.1 hplace).1
  exact ⟨xs[k], get?_eq_some.2 ⟨k, hplace, List.getElem?_eq_getElem hk⟩⟩

end Index

namespace Assignment

def IsTotal (a : Assignment) : Prop := ∀ x ∈ a, x = some 0 ∨ x = some 1

/-- No variable has a value other than 0 and 1. -/
def IsThreeValued (a : Assignment) : Prop := ∀ x ∈ a, x = none ∨ x = some 0 ∨ x = some 1

/-- `m` is `a` with some of the open variables, if any, filled in. -/
def Extends (m a : Assignment) : Prop := List.Forall₂ (fun x y => x = none ∨ x = y) a m

instance (a : Assignment) : Decidable a.IsTotal :=
  inferInstanceAs (Decidable (∀ x ∈ a, x = some 0 ∨ x = some 1))

instance (a : Assignment) : Decidable a.IsThreeValued :=
  inferInstanceAs (Decidable (∀ x ∈ a, x = none ∨ x = some 0 ∨ x = some 1))

instance (m a : Assignment) : Decidable (m.Extends a) :=
  inferInstanceAs (Decidable (List.Forall₂ _ a m))

theorem Extends.length_eq {m a : Assignment} (h : m.Extends a) : m.length = a.length :=
  (List.Forall₂.length_eq h).symm

theorem Extends.get? {m a : Assignment} (h : m.Extends a) {i v : Int}
    (hv : Index.get? a i = some (some v)) : Index.get? m i = some (some v) := by
  obtain ⟨k, hk, hak⟩ := Index.get?_eq_some.1 hv
  obtain ⟨hka, hxa⟩ := List.getElem?_eq_some_iff.1 hak
  have hkm : k < m.length := by rw [h.length_eq]; exact hka
  refine Index.get?_eq_some.2 ⟨k, by rw [h.length_eq]; exact hk, ?_⟩
  rcases List.Forall₂.get h hka hkm with hnone | hsame
  · simp only [List.get_eq_getElem, hxa, reduceCtorEq] at hnone
  · simp only [List.get_eq_getElem, hxa] at hsame
    exact List.getElem?_eq_some_iff.2 ⟨hkm, hsame.symm⟩

end Assignment

namespace Literal

def InRange (n : Nat) (l : Literal) : Prop := 0 ≤ l.code ∧ l.code < 2 * n

instance (n : Nat) (l : Literal) : Decidable (l.InRange n) :=
  inferInstanceAs (Decidable (_ ∧ _))

theorem InRange.exists_var {n : Nat} {l : Literal} (h : l.InRange n) :
    ∃ k, k < n ∧ l.var = (k : Int) := by
  obtain ⟨h₀, h₁⟩ := h
  refine ⟨l.var.toNat, ?_, ?_⟩ <;> simp only [var] <;> omega

theorem inRange_of {n v : Nat} (h : v < n) (negated : Bool) : (of v negated).InRange n := by
  cases negated <;>
    simp only [InRange, of, Bool.toInt_false, Bool.toInt_true] <;> omega

theorem isFalse?_eq_some_true {l : Literal} {a : Assignment} :
    l.isFalse? a = some true ↔ Index.get? a l.var = some (some l.sign) := by
  simp [isFalse?]

theorem isFalse?_eq_none {l : Literal} {a : Assignment} :
    l.isFalse? a = none ↔ Index.get? a l.var = none := by
  simp [isFalse?]

theorem isTrue?_eq_some_true {l : Literal} {a : Assignment} :
    l.isTrue? a = some true ↔ ∃ v, Index.get? a l.var = some (some v) ∧ v ≠ l.sign := by
  cases hx : Index.get? a l.var with
  | none => simp [isTrue?, hx]
  | some x => cases x <;> simp [isTrue?, hx]

theorem isTrue?_eq_none {l : Literal} {a : Assignment} :
    l.isTrue? a = none ↔ l.isFalse? a = none := by
  simp [isTrue?, isFalse?]

theorem isFalse?_ne_none {n : Nat} {l : Literal} {a : Assignment} (hl : l.InRange n)
    (ha : a.length = n) : l.isFalse? a ≠ none := by
  obtain ⟨k, hk, hvar⟩ := hl.exists_var
  rw [Ne, isFalse?_eq_none, hvar, Index.get?_natCast, List.getElem?_eq_none_iff]
  omega

theorem InRange.exists_code {n : Nat} {l : Literal} (h : l.InRange n) :
    ∃ k : Nat, k < 2 * n ∧ l = ⟨k⟩ := by
  obtain ⟨h₀, h₁⟩ := h
  exact ⟨l.code.toNat, by omega, Literal.ext (by simp only; omega)⟩

theorem get?_set_of_var_eq {v : Nat} {l : Literal} {a : Assignment} (hvar : l.var = v)
    (hv : v < a.length) (x : Option Int) : Index.get? (a.set v x) l.var = some x := by
  rw [hvar, Index.get?_natCast, List.getElem?_set_self hv]

theorem get?_set_of_var_ne {n v : Nat} {l : Literal} {a : Assignment} (hl : l.InRange n)
    (hne : l.var ≠ v) (x : Option Int) : Index.get? (a.set v x) l.var = Index.get? a l.var := by
  obtain ⟨k, -, hvar⟩ := hl.exists_var
  rw [hvar, Index.get?_natCast, Index.get?_natCast, List.getElem?_set_ne (by omega)]

/-- Giving a variable a value makes one literal false, and frees the other one. -/
theorem isFalse?_set {n v : Nat} {l : Literal} {a : Assignment} (hl : l.InRange n)
    (ha : a.length = n) (hv : v < n) (value : Bool) :
    l.isFalse? (a.set v (some value.toInt)) = some true ↔
      l = of v value ∨ (l.var ≠ v ∧ l.isFalse? a = some true) := by
  rw [isFalse?_eq_some_true, isFalse?_eq_some_true]
  by_cases hvar : l.var = v
  · rw [get?_set_of_var_eq hvar (by omega)]
    constructor
    · intro h
      have hsign : value.toInt = l.sign := by simpa using h
      exact .inl (eq_of_var_eq (by rw [hvar, var_of]) (by rw [sign_of, hsign]))
    · rintro (rfl | ⟨hne, -⟩)
      · rw [sign_of]
      · exact absurd hvar hne
  · rw [get?_set_of_var_ne hl hvar]
    constructor
    · intro h
      exact .inr ⟨hvar, h⟩
    · rintro (rfl | ⟨-, h⟩)
      · exact absurd (var_of v value) hvar
      · exact h

theorem isFalse?_replicate_none (l : Literal) (n : Nat) :
    l.isFalse? (List.replicate n none) ≠ some true := by
  intro h
  obtain ⟨k, -, hk⟩ := Index.get?_eq_some.1 (isFalse?_eq_some_true.1 h)
  have hnone := List.eq_of_mem_replicate (List.mem_of_getElem? hk)
  simp at hnone

theorem isFalse?_of_extends {l : Literal} {m a : Assignment} (hm : m.Extends a)
    (h : l.isFalse? a = some true) : l.isFalse? m = some true :=
  isFalse?_eq_some_true.2 (hm.get? (isFalse?_eq_some_true.1 h))

theorem isTrue?_of_isTotal {m : Assignment} (hm : m.IsTotal) (l : Literal) :
    l.isTrue? m = (l.isFalse? m).map (!·) := by
  unfold isTrue? isFalse?
  cases hx : Index.get? m l.var with
  | none => rfl
  | some x =>
      obtain ⟨k, -, hk⟩ := Index.get?_eq_some.1 hx
      rcases hm x (List.mem_of_getElem? hk) with rfl | rfl <;> rfl

end Literal

namespace Clause

/-- A clause that the search can work on: not empty, and on the first `n` variables. -/
structure WellFormed (n : Nat) (c : Clause) : Prop where
  ne_nil : c ≠ []
  inRange : ∀ l ∈ c, l.InRange n

instance (n : Nat) (c : Clause) : Decidable (c.WellFormed n) :=
  decidable_of_iff (c ≠ [] ∧ ∀ l ∈ c, l.InRange n)
    ⟨fun h => ⟨h.1, h.2⟩, fun h => ⟨h.ne_nil, h.inRange⟩⟩

theorem WellFormed.mono {n n' : Nat} {c : Clause} (h : c.WellFormed n) (hn : n ≤ n') :
    c.WellFormed n' where
  ne_nil := h.ne_nil
  inRange l hl := by
    obtain ⟨h₀, h₁⟩ := h.inRange l hl
    exact ⟨h₀, by omega⟩

def AllFalse (a : Assignment) (c : Clause) : Prop := ∀ l ∈ c, l.isFalse? a = some true

instance (a : Assignment) (c : Clause) : Decidable (c.AllFalse a) :=
  inferInstanceAs (Decidable (∀ l ∈ c, l.isFalse? a = some true))

theorem AllFalse.of_extends {c : Clause} {m a : Assignment} (hm : m.Extends a)
    (h : c.AllFalse a) : c.AllFalse m :=
  fun l hl => Literal.isFalse?_of_extends hm (h l hl)

/-- Some literal is true. Stopping at the first one makes no difference where all have a truth
value. -/
theorem isTrue?_eq_decide {a : Assignment} (c : Clause) (hc : ∀ l ∈ c, l.InRange a.length) :
    c.isTrue? a = some (decide (∃ l ∈ c, l.isTrue? a = some true)) := by
  induction c with
  | nil => rfl
  | cons l ls ih =>
      have hrest := ih fun l' hl' => hc l' (List.mem_cons_of_mem l hl')
      have hl : l.isTrue? a ≠ none := by
        rw [Ne, Literal.isTrue?_eq_none]
        exact Literal.isFalse?_ne_none (hc l List.mem_cons_self) rfl
      rw [Clause.isTrue?]
      cases hv : l.isTrue? a with
      | none => exact absurd hv hl
      | some v => cases v <;> simp [hrest, hv]

theorem not_allFalse_iff_of_isTotal {m : Assignment} (hm : m.IsTotal) {c : Clause}
    (hc : ∀ l ∈ c, l.InRange m.length) : ¬c.AllFalse m ↔ ∃ l ∈ c, l.isTrue? m = some true := by
  simp only [AllFalse, not_forall, exists_prop]
  refine exists_congr fun l => and_congr_right fun hl => ?_
  have hentry := Literal.isFalse?_ne_none (hc l hl) rfl
  rw [Literal.isTrue?_of_isTotal hm l]
  cases hv : l.isFalse? m with
  | none => exact absurd hv hentry
  | some v => cases v <;> simp

end Clause

theorem satisfies?_eq_decide {a : Assignment} (cs : List Clause)
    (hcs : ∀ c ∈ cs, ∀ l ∈ c, l.InRange a.length) :
    satisfies? a cs = some (decide (∀ c ∈ cs, ∃ l ∈ c, l.isTrue? a = some true)) := by
  induction cs with
  | nil => simp [satisfies?]
  | cons c cs ih =>
      have hrest := ih fun c' hc' => hcs c' (List.mem_cons_of_mem c hc')
      rw [satisfies?, Clause.isTrue?_eq_decide c (hcs c List.mem_cons_self)]
      by_cases hc : ∃ l ∈ c, l.isTrue? a = some true <;> simp [hc, hrest]

theorem satisfies?_of_isTotal {m : Assignment} (hm : m.IsTotal) (cs : List Clause)
    (hcs : ∀ c ∈ cs, ∀ l ∈ c, l.InRange m.length) :
    satisfies? m cs = some (decide (∀ c ∈ cs, ¬c.AllFalse m)) := by
  rw [satisfies?_eq_decide cs hcs, Option.some.injEq, decide_eq_decide]
  exact forall₂_congr fun c hc => (Clause.not_allFalse_iff_of_isTotal hm (hcs c hc)).symm

theorem satisfies?_iff_of_isTotal {m : Assignment} (hm : m.IsTotal) {cs : List Clause}
    (hcs : ∀ c ∈ cs, ∀ l ∈ c, l.InRange m.length) :
    satisfies? m cs = some true ↔ ∀ c ∈ cs, ¬c.AllFalse m := by
  rw [satisfies?_of_isTotal hm cs hcs, Option.some.injEq, decide_eq_true_iff]

end CnfSolver
