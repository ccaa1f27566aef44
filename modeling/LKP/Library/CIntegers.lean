import Mathlib

/-
The conversions that C makes between `int`, `long`, `unsigned long` and `size_t` on a
64-bit machine: what they do to the numbers, and when they do nothing.
-/

set_option autoImplicit false

namespace LKP.CIntegers

theorem signed_toInt (number : UInt64) :
    number.toInt64.toInt = (number.toNat : Int).bmod (2 ^ 64) := by
  have bits : number.toInt64.toInt = number.toBitVec.toInt := rfl
  rw [bits, BitVec.toInt_eq_toNat_bmod, UInt64.toNat_toBitVec]

theorem signed_of_small {number : UInt64} (small : number.toNat < 2 ^ 63) :
    number.toInt64.toInt = number.toNat := by
  rw [signed_toInt]
  apply Int.bmod_eq_of_le
  · omega
  · omega

theorem unsigned_toNat (number : Int64) :
    (number.toUInt64.toNat : Int) = number.toInt % 2 ^ 64 := by
  have bits : number.toUInt64.toNat = number.toBitVec.toNat := rfl
  have value : number.toInt = (number.toBitVec.toNat : Int).bmod (2 ^ 64) := by
    rw [← Int64.toInt_toBitVec, BitVec.toInt_eq_toNat_bmod]
  have bound := number.toBitVec.isLt
  rw [bits, value]
  simp only [Int.bmod]
  omega

theorem unsigned_of_nonneg {number : Int64} (nonneg : 0 ≤ number.toInt) :
    (number.toUInt64.toNat : Int) = number.toInt := by
  have upper := number.toInt_lt
  rw [unsigned_toNat]
  exact Int.emod_eq_of_lt nonneg (by omega)

theorem unsignedInt_toNat (number : Int32) :
    (number.toUInt32.toNat : Int) = number.toInt % 2 ^ 32 := by
  have bits : number.toUInt32.toNat = number.toBitVec.toNat := rfl
  have value : number.toInt = (number.toBitVec.toNat : Int).bmod (2 ^ 32) := by
    rw [← Int32.toInt_toBitVec, BitVec.toInt_eq_toNat_bmod]
  have bound := number.toBitVec.isLt
  rw [bits, value]
  simp only [Int.bmod]
  omega

/-- A signed difference that is not negative, compared as an unsigned number. -/
theorem unsigned_sub {left right : Int64} (nonneg : 0 ≤ right.toInt)
    (ordered : right.toInt ≤ left.toInt) :
    ((left - right).toUInt64.toNat : Int) = left.toInt - right.toInt := by
  have upper := left.toInt_lt
  have difference : (left - right).toInt = left.toInt - right.toInt := by
    rw [Int64.toInt_sub]
    apply Int.bmod_eq_of_le
    · omega
    · omega
  rw [unsigned_of_nonneg (by omega), difference]

/-- `signed += unsigned`, as long as the sum is a signed number. -/
theorem signed_add {left : Int64} {right : UInt64} (nonneg : 0 ≤ left.toInt)
    (fits : left.toInt + right.toNat < 2 ^ 63) :
    (left.toUInt64 + right).toInt64.toInt = left.toInt + right.toNat := by
  have converted := unsigned_of_nonneg nonneg
  have sum : (left.toUInt64 + right).toNat = left.toUInt64.toNat + right.toNat := by
    rw [UInt64.toNat_add]
    exact Nat.mod_eq_of_lt (by omega)
  rw [signed_of_small (by omega), sum]
  omega

/-! ### An `int` among unsigned long numbers -/

/-- An `int` where an `unsigned long` is wanted. -/
def widen (number : Int32) : UInt64 := number.toInt64.toUInt64

/-- `number += addend`: the sum is made of unsigned long numbers and cut to an `int`. -/
def intAdd (number : Int32) (addend : UInt64) : Int32 := (widen number + addend).toInt64.toInt32

theorem widen_toNat {number : Int32} (nonneg : 0 ≤ number.toInt) :
    ((widen number).toNat : Int) = number.toInt := by
  have long := Int32.toInt_toInt64 number
  rw [widen, unsigned_of_nonneg (by omega), long]

/-- The sum is that of the low halves. -/
theorem intAdd_eq (number : Int32) (addend : UInt64) :
    intAdd number addend = number + Int32.ofNat addend.toNat := by
  apply Int32.toBitVec_inj.mp
  have bits : (intAdd number addend).toBitVec =
      (number.toBitVec.signExtend 64 + addend.toBitVec).signExtend 32 := rfl
  have narrow : (Int32.ofNat addend.toNat).toBitVec = addend.toBitVec.setWidth 32 := by
    apply BitVec.eq_of_toNat_eq
    simp
  rw [bits, Int32.toBitVec_add, narrow, BitVec.signExtend_eq_setWidth_of_le _ (by decide),
    BitVec.setWidth_add _ _ (by decide)]
  congr 1
  apply BitVec.eq_of_getLsbD_eq
  intro index within
  simp only [BitVec.getLsbD_setWidth, BitVec.getLsbD_signExtend, within]
  simp
  omega

end LKP.CIntegers
