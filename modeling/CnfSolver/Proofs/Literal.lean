import CnfSolver.Literal
import Mathlib.Data.Int.Bitwise

/-!
# Codes of literals

Every integer is the code of exactly one literal. In two's complement of unbounded width the sign is
the lowest bit and the variable is what the other bits spell, for codes below zero as well: building
a code, reading it and negating it are a shift and one bitwise operation each.
-/

namespace CnfSolver

namespace Bits

private theorem xor_and_self_eq_ldiff (m n : Nat) : m ^^^ (m &&& n) = Nat.ldiff m n := by
  apply Nat.eq_of_testBit_eq
  intro i
  rw [Nat.testBit_xor, Nat.testBit_and, Nat.testBit_ldiff]
  cases m.testBit i <;> cases n.testBit i <;> rfl

theorem or_eq_lor (a b : Int) : or a b = Int.lor a b := by
  cases a with
  | ofNat m =>
      cases b with
      | ofNat n => rfl
      | negSucc n => exact congrArg Int.negSucc (xor_and_self_eq_ldiff n m)
  | negSucc m =>
      cases b with
      | ofNat n => exact congrArg Int.negSucc (xor_and_self_eq_ldiff m n)
      | negSucc n => rfl

theorem land_zero (a : Int) : Int.land a 0 = 0 := by
  cases a with
  | ofNat m => exact congrArg Int.ofNat (Nat.and_zero m)
  | negSucc m =>
      show Int.ofNat (Nat.ldiff 0 m) = 0
      rw [← xor_and_self_eq_ldiff, Nat.zero_and, Nat.xor_zero]
      rfl

theorem xor_zero (a : Int) : Int.xor a 0 = a := by
  cases a with
  | ofNat m => exact congrArg Int.ofNat (Nat.xor_zero m)
  | negSucc m => exact congrArg Int.negSucc (Nat.xor_zero m)

end Bits

namespace Literal

/-! ## Variable and sign -/

theorem sign_eq_zero_or_one (l : Literal) : l.sign = 0 ∨ l.sign = 1 := by
  simp only [sign]
  omega

theorem eq_of_var_eq {l f : Literal} (hvar : l.var = f.var) (hsign : l.sign = f.sign) : l = f := by
  apply Literal.ext
  simp only [var, sign] at hvar hsign
  omega

theorem toInt_isNegated (l : Literal) : l.isNegated.toInt = l.sign := by
  rcases l.sign_eq_zero_or_one with hsign | hsign <;> simp [isNegated, hsign]

@[simp] theorem isNegated_of (v : Int) (negated : Bool) : (of v negated).isNegated = negated := by
  cases negated <;> simp [isNegated]

theorem of_var_isNegated (l : Literal) : of l.var l.isNegated = l := by
  apply eq_of_var_eq
  · rw [var_of]
  · rw [sign_of, toInt_isNegated]

/-! ## Negation -/

@[simp] theorem var_negate (l : Literal) : l.negate.var = l.var := by
  simp only [negate, var, sign]
  omega

theorem sign_negate (l : Literal) : l.negate.sign = 1 - l.sign := by
  simp only [negate, sign]
  omega

@[simp] theorem negate_negate (l : Literal) : l.negate.negate = l := by
  apply eq_of_var_eq
  · rw [var_negate, var_negate]
  · rw [sign_negate, sign_negate]
    omega

@[simp] theorem isNegated_negate (l : Literal) : l.negate.isNegated = !l.isNegated := by
  rcases l.sign_eq_zero_or_one with hsign | hsign <;> simp [isNegated, sign_negate, hsign]

theorem negate_eq_iff {l f : Literal} : l.negate = f ↔ l = f.negate := by
  constructor
  · rintro rfl
    exact l.negate_negate.symm
  · rintro rfl
    exact f.negate_negate

theorem eq_or_eq_negate_of_var_eq {l f : Literal} (h : l.var = f.var) : l = f ∨ l = f.negate := by
  by_cases hsign : l.sign = f.sign
  · exact .inl (eq_of_var_eq h hsign)
  · refine .inr (eq_of_var_eq (by rw [var_negate, h]) ?_)
    rw [sign_negate]
    have hl := l.sign_eq_zero_or_one
    have hf := f.sign_eq_zero_or_one
    omega

/-! ## Codes bit by bit -/

theorem code_eq_bit (l : Literal) : l.code = Int.bit l.isNegated l.var := by
  rw [Int.bit_val, ← Bool.toInt, toInt_isNegated]
  simp only [var, sign]
  omega

theorem code_falsifiedBy (v value : Int) :
    (falsifiedBy v value).code = Int.lor (v <<< (1 : Nat)) value := by
  have hdouble : v <<< (1 : Nat) = 2 * v := by
    rw [Int.shiftLeft_eq]
    omega
  rw [hdouble, ← Bits.or_eq_lor]
  rfl

theorem code_of (v : Int) (negated : Bool) :
    (of v negated).code = Int.lor (v <<< (1 : Nat)) negated.toInt := by
  rw [← falsifiedBy_toInt, code_falsifiedBy]

theorem var_eq_shiftRight (l : Literal) : l.var = l.code >>> (1 : Nat) :=
  (Int.shiftRight_eq_div_pow l.code 1).symm

theorem sign_eq_land (l : Literal) : l.sign = Int.land l.code 1 := by
  calc
    l.sign = Int.bit l.isNegated 0 := by
      rw [← toInt_isNegated]
      cases l.isNegated <;> rfl
    _ = Int.land (Int.bit l.isNegated l.var) (Int.bit true 0) := by
      rw [Int.land_bit, Bool.and_true, Bits.land_zero]
    _ = Int.land l.code 1 := by
      rw [← code_eq_bit]
      rfl

theorem code_negate (l : Literal) : l.negate.code = Int.xor l.code 1 := by
  calc
    l.negate.code = Int.bit (!l.isNegated) l.var := by
      rw [code_eq_bit, isNegated_negate, var_negate]
    _ = Int.xor (Int.bit l.isNegated l.var) (Int.bit true 0) := by
      rw [Int.lxor_bit, Bool.xor_true, Bits.xor_zero]
    _ = Int.xor l.code 1 := by
      rw [← code_eq_bit]
      rfl

end Literal

end CnfSolver
