/-!
# Literals

A literal is an integer code: twice its variable, plus one when the variable is negated. With
`A`, `B`, `C` numbered 0, 1, 2 the clause `A ~B C` has the codes 0, 3, 4.
-/

namespace CnfSolver

namespace Bits

/-- Bitwise disjunction in two's complement of unbounded width. A negative operand `-(m + 1)` is the
complement of `m`. -/
def or : Int → Int → Int
  | .ofNat m, .ofNat n => .ofNat (m ||| n)
  | .ofNat m, .negSucc n => .negSucc (n ^^^ (n &&& m))
  | .negSucc m, .ofNat n => .negSucc (m ^^^ (m &&& n))
  | .negSucc m, .negSucc n => .negSucc (m &&& n)

theorem or_zero (a : Int) : or a 0 = a := by
  cases a with
  | ofNat m => exact congrArg Int.ofNat (Nat.or_zero m)
  | negSucc m =>
      show Int.negSucc (m ^^^ (m &&& 0)) = _
      rw [Nat.and_zero, Nat.xor_zero]

private theorem double_or_one (m : Nat) : 2 * m ||| 1 = 2 * m + 1 := by
  apply Nat.eq_of_testBit_eq
  intro i
  cases i with
  | zero => rw [Nat.testBit_or]; simp [Nat.testBit_zero]
  | succ i =>
      have h : (2 * m + 1) / 2 = 2 * m / 2 := by omega
      rw [Nat.testBit_or, Nat.testBit_succ, Nat.testBit_succ, Nat.testBit_succ, h,
        Nat.div_eq_of_lt (by omega : 1 < 2), Nat.zero_testBit, Bool.or_false]

private theorem odd_xor_low_bit (m : Nat) : (2 * m + 1) ^^^ ((2 * m + 1) &&& 1) = 2 * m := by
  apply Nat.eq_of_testBit_eq
  intro i
  cases i with
  | zero => rw [Nat.testBit_xor, Nat.testBit_and]; simp [Nat.testBit_zero]
  | succ i =>
      have h : (2 * m + 1) / 2 = 2 * m / 2 := by omega
      rw [Nat.testBit_xor, Nat.testBit_and, Nat.testBit_succ, Nat.testBit_succ, Nat.testBit_succ,
        h, Nat.div_eq_of_lt (by omega : 1 < 2), Nat.zero_testBit, Bool.and_false, Bool.xor_false]

theorem double_or_one_eq (v : Int) : or (2 * v) 1 = 2 * v + 1 := by
  cases v with
  | ofNat m =>
      show Int.ofNat (2 * m ||| 1) = 2 * Int.ofNat m + 1
      rw [double_or_one]
      simp
  | negSucc m =>
      have h : 2 * Int.negSucc m = Int.negSucc (2 * m + 1) := by omega
      rw [h]
      show Int.negSucc ((2 * m + 1) ^^^ ((2 * m + 1) &&& 1)) = _
      rw [odd_xor_low_bit]
      omega

end Bits

@[ext]
structure Literal where
  code : Int
  deriving DecidableEq, Repr

abbrev Clause := List Literal

namespace Literal

def of (v : Int) (negated : Bool) : Literal := ⟨2 * v + negated.toInt⟩

def var (l : Literal) : Int := l.code / 2

/-- One for a negated literal, zero for a positive one. -/
def sign (l : Literal) : Int := l.code % 2

def isNegated (l : Literal) : Bool := l.sign = 1

def negate (l : Literal) : Literal := ⟨l.code + 1 - 2 * l.sign⟩

/-- The literal that giving `value` to variable `v` makes false. Its low bit is the value: zero
falsifies the positive literal and one the negated one. -/
def falsifiedBy (v value : Int) : Literal := ⟨Bits.or (2 * v) value⟩

theorem falsifiedBy_toInt (v : Int) (value : Bool) : falsifiedBy v value.toInt = of v value := by
  cases value with
  | false => exact Literal.ext (by simp [falsifiedBy, of, Bits.or_zero])
  | true => exact Literal.ext (by simp [falsifiedBy, of, Bits.double_or_one_eq])

@[simp] theorem var_of (v : Int) (negated : Bool) : (of v negated).var = v := by
  cases negated <;> simp only [of, var, Bool.toInt_false, Bool.toInt_true] <;> omega

@[simp] theorem sign_of (v : Int) (negated : Bool) : (of v negated).sign = negated.toInt := by
  cases negated <;> simp only [of, sign, Bool.toInt_false, Bool.toInt_true] <;> omega

end Literal

end CnfSolver
