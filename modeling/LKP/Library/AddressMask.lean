import Mathlib

/-
Rounding addresses down by clearing the bits of a mask.

To clear the low bits is to round down to a multiple of a power of two.  What is such a
multiple already is left as it is by the masks of low bits, and over a range of addresses
that is longer than the mask by no others: each bit of the mask is seen by an address of
the range that has this bit.
-/

set_option autoImplicit false

namespace LKP.AddressMask

variable {width : Nat}

def cleared (mask address : BitVec width) : BitVec width := address &&& ~~~mask

theorem cleared_testBit (mask address : BitVec width) (index : Nat) :
    (cleared mask address).toNat.testBit index =
      (address.toNat.testBit index && !mask.toNat.testBit index) := by
  rw [cleared, BitVec.testBit_toNat, BitVec.testBit_toNat, BitVec.testBit_toNat,
    BitVec.getLsbD_and, BitVec.getLsbD_not]
  by_cases inside : index < width
  · simp [inside]
  · simp [BitVec.getLsbD_of_ge address index (Nat.le_of_not_lt inside)]

theorem roundDown_testBit (address bits index : Nat) :
    (address / 2 ^ bits * 2 ^ bits).testBit index =
      (decide (bits ≤ index) && address.testBit index) := by
  rw [Nat.testBit_mul_two_pow, Nat.testBit_div_two_pow]
  by_cases high : bits ≤ index
  · rw [Nat.sub_add_cancel high]
  · simp [high]

/-- An address is rounded down if every bit it has is in the mask exactly when it is low. -/
theorem cleared_eq_roundDown_iff (mask address : BitVec width) (bits : Nat) :
    (cleared mask address).toNat = address.toNat / 2 ^ bits * 2 ^ bits ↔
      ∀ index, address.toNat.testBit index = true →
        mask.toNat.testBit index = decide (index < bits) := by
  constructor
  · intro same index present
    have bit := congrArg (fun number => number.testBit index) same
    simp only [cleared_testBit, roundDown_testBit, present, Bool.true_and, Bool.and_true] at bit
    by_cases low : index < bits
    · simpa [low, Nat.not_le.mpr low] using bit
    · simpa [low, Nat.le_of_not_lt low] using bit
  · intro agree
    apply Nat.eq_of_testBit_eq
    intro index
    rw [cleared_testBit, roundDown_testBit]
    cases present : address.toNat.testBit index with
    | false => simp
    | true =>
        rw [agree index present]
        by_cases low : index < bits
        · simp [low]
        · simp [low, Nat.le_of_not_lt low]

theorem eq_roundDown_iff {destination address size : Nat} (positive : 0 < size) :
    destination = address / size * size ↔
      size ∣ destination ∧ destination ≤ address ∧ address < destination + size := by
  have remainder := Nat.mod_lt address positive
  have whole := Nat.div_add_mod' address size
  constructor
  · intro same
    subst same
    exact ⟨Nat.dvd_mul_left _ _, by omega, by omega⟩
  · intro premise
    obtain ⟨⟨quotient, rfl⟩, below, above⟩ := premise
    have same : address / size = quotient := by
      apply Nat.div_eq_of_lt_le
      · rw [Nat.mul_comm]
        exact below
      · rw [Nat.succ_mul, Nat.mul_comm]
        exact above
    rw [same, Nat.mul_comm]

/-- A range of more than `2 ^ index` addresses has one with this bit. -/
theorem exists_testBit (base : Nat) {length index : Nat} (long : 2 ^ index < length) :
    ∃ address, base ≤ address ∧ address < base + length ∧ address.testBit index = true := by
  cases present : base.testBit index with
  | true =>
      have some := Nat.zero_lt_of_lt long
      exact ⟨base, Nat.le_refl _, by omega, present⟩
  | false =>
      have remainder := Nat.mod_lt base (Nat.two_pow_pos index)
      have whole := Nat.div_add_mod' base (2 ^ index)
      have even : (base / 2 ^ index) % 2 = 0 := by
        have bit := Nat.testBit_eq_decide_div_mod_eq ▸ present
        have notOne : base / 2 ^ index % 2 ≠ 1 := by simpa using bit
        omega
      refine ⟨(base / 2 ^ index + 1) * 2 ^ index, ?_, ?_, ?_⟩
      · rw [Nat.succ_mul]
        omega
      · rw [Nat.succ_mul]
        omega
      · rw [Nat.testBit_mul_two_pow, Nat.sub_self, Nat.testBit_zero]
        simp only [Nat.le_refl, decide_true, Bool.true_and, decide_eq_true_eq]
        omega

/-! ### Addresses that are multiples already -/

theorem testBit_of_multiple {number bits index : Nat} (multiple : 2 ^ bits ∣ number)
    (present : number.testBit index = true) : bits ≤ index := by
  obtain ⟨count, whole⟩ := multiple
  rw [whole, Nat.mul_comm, Nat.testBit_mul_two_pow] at present
  exact of_decide_eq_true (Bool.and_eq_true_iff.mp present).1

/-- An address keeps all of its bits if none of them is in the mask. -/
theorem cleared_eq_self_iff (mask address : BitVec width) :
    (cleared mask address).toNat = address.toNat ↔
      ∀ index, address.toNat.testBit index = true → mask.toNat.testBit index = false := by
  constructor
  · intro same index present
    have bit := congrArg (fun number => number.testBit index) same
    simpa only [cleared_testBit, present, Bool.true_and, Bool.not_eq_true'] using bit
  · intro apart
    apply Nat.eq_of_testBit_eq
    intro index
    rw [cleared_testBit]
    cases present : address.toNat.testBit index with
    | false => rfl
    | true => rw [apart index present, Bool.not_false, Bool.and_true]

/-- A mask of low bits leaves a multiple of their power as it is. -/
theorem cleared_of_multiple {mask address : BitVec width} {bits : Nat}
    (small : mask.toNat < 2 ^ bits) (multiple : 2 ^ bits ∣ address.toNat) :
    (cleared mask address).toNat = address.toNat := by
  apply (cleared_eq_self_iff mask address).mpr
  intro index present
  have high := testBit_of_multiple multiple present
  exact Nat.testBit_lt_two_pow
    (Nat.lt_of_lt_of_le small (Nat.pow_le_pow_right (by omega) high))

/-- In a range longer than the mask, the multiples are left as they are only by a mask of low
bits. -/
theorem cleared_multiples_iff {mask : BitVec width} {base length bits : Nat}
    (start : 2 ^ bits ∣ base) (fits : base + length ≤ 2 ^ width) (small : mask.toNat < length) :
    (∀ address : BitVec width, base ≤ address.toNat → address.toNat < base + length →
      2 ^ bits ∣ address.toNat → (cleared mask address).toNat = address.toNat) ↔
    mask.toNat < 2 ^ bits := by
  constructor
  · intro keeps
    apply Nat.lt_pow_two_of_testBit
    intro index high
    by_contra inMask
    have present : mask.toNat.testBit index = true := Bool.not_eq_false _ ▸ inMask
    have power := Nat.ge_two_pow_of_testBit present
    obtain ⟨number, lower, upper, bit⟩ := exists_testBit base (Nat.lt_of_le_of_lt power small)
    -- the multiple below has the same high bits
    have below := Nat.div_mul_le_self number (2 ^ bits)
    have same : (BitVec.ofNat width (number / 2 ^ bits * 2 ^ bits)).toNat =
        number / 2 ^ bits * 2 ^ bits := by
      rw [BitVec.toNat_ofNat, Nat.mod_eq_of_lt (by omega)]
    have above : base ≤ number / 2 ^ bits * 2 ^ bits := by
      obtain ⟨count, whole⟩ := start
      rw [whole, Nat.mul_comm] at lower ⊢
      exact Nat.mul_le_mul_right _ ((Nat.le_div_iff_mul_le (Nat.two_pow_pos bits)).mpr lower)
    have kept := keeps (BitVec.ofNat width (number / 2 ^ bits * 2 ^ bits)) (by omega)
      (by omega) (by rw [same]; exact Nat.dvd_mul_left ..)
    have cut := congrArg (fun value => value.testBit index) kept
    simp only [cleared_testBit, same, roundDown_testBit, bit, present, decide_eq_true high] at cut
    cases cut
  · intro low address _lower _upper multiple
    exact cleared_of_multiple low multiple

end LKP.AddressMask
