import LKP.Dsm.Machine
import LKP.Library.AddressMask

/-
Where `fault_handler_thread` copies the page that resolves a fault.

`part3.c` clears the offset within a page from the fault address.  The same line in
`part4.c` clears the bits of the page count.  The kernel reports the start of a page, in
which there is no offset to clear, and which has no bit of a small page count.
-/

set_option autoImplicit false

namespace LKP.Dsm

open AddressMask

/-- `msg.arg.pagefault.address & ~(size - 1)`, on `unsigned long`. -/
def pagefaultAddress (size address : BitVec 64) : BitVec 64 := cleared (size - 1) address

/-- `uffdio_copy.dst` in `part3.c`. -/
def faultDestinationPart3 (pageSize address : BitVec 64) : BitVec 64 :=
  pagefaultAddress pageSize address

/-- `uffdio_copy.dst` in `part4.c`. -/
def faultDestination (pageCount address : BitVec 64) : BitVec 64 :=
  pagefaultAddress pageCount address

/-- A fault in the region of so many pages is resolved by the page around it. -/
structure FillsPage (base pages : Nat) (address destination : BitVec 64) : Prop where
  aligned : 4096 ∣ destination.toNat
  below : destination.toNat ≤ address.toNat
  above : address.toNat < destination.toNat + 4096
  lower : base ≤ destination.toNat
  upper : destination.toNat + 4096 ≤ base + pages * 4096

def InRegion (base pages : Nat) (address : BitVec 64) : Prop :=
  base ≤ address.toNat ∧ address.toNat < base + pages * 4096

/-- In an aligned region the page around a fault is the fault address rounded down. -/
theorem fillsPage_iff {base pages : Nat} {address destination : BitVec 64}
    (page : 4096 ∣ base) (inside : InRegion base pages address) :
    FillsPage base pages address destination ↔
      destination.toNat = address.toNat / 2 ^ 12 * 2 ^ 12 := by
  obtain ⟨lower, upper⟩ := inside
  rw [eq_roundDown_iff (Nat.two_pow_pos 12)]
  constructor
  · intro fills
    exact ⟨fills.aligned, fills.below, fills.above⟩
  · intro premise
    obtain ⟨aligned, below, above⟩ := premise
    have aligned : 4096 ∣ destination.toNat := aligned
    exact ⟨aligned, below, by omega, by omega, by omega⟩

theorem faultDestinationPart3_fills {base pages : Nat} {address : BitVec 64}
    (page : 4096 ∣ base) (inside : InRegion base pages address) :
    FillsPage base pages address (faultDestinationPart3 4096 address) := by
  apply (fillsPage_iff page inside).mpr
  apply (cleared_eq_roundDown_iff _ _ 12).mpr
  intro index _
  have mask : ((4096 : BitVec 64) - 1).toNat = 2 ^ 12 - 1 := rfl
  rw [mask, Nat.testBit_two_pow_sub_one]

/-! ### The line of `part4.c` at the starts of pages -/

section Starts

variable {base : Nat} {pageCount address : BitVec 64}

theorem predecessor_toNat (accepted : 0 < pageCount.toNat) :
    (pageCount - 1).toNat = pageCount.toNat - 1 := by
  have bound := pageCount.isLt
  rw [BitVec.toNat_sub]
  change (2 ^ 64 - 1 + pageCount.toNat) % 2 ^ 64 = _
  omega

/-- The line leaves all starts of pages of a region as they are just when there are no more
pages than `MAX_SIZE`. -/
theorem faultDestination_keeps_iff (page : 4096 ∣ base) (accepted : 0 < pageCount.toNat)
    (fits : base + pageCount.toNat * 4096 ≤ 2 ^ 64) :
    (∀ address : BitVec 64, base ≤ address.toNat →
      address.toNat < base + pageCount.toNat * 4096 → 4096 ∣ address.toNat →
      (faultDestination pageCount address).toNat = address.toNat) ↔
        (pageCount.toNat : Int) ≤ maxSize := by
  have mask := predecessor_toNat accepted
  have multiples := @cleared_multiples_iff 64 (pageCount - 1) base (pageCount.toNat * 4096) 12
    page fits (by omega)
  have small : (pageCount.toNat : Int) ≤ maxSize ↔ (pageCount - 1).toNat < 2 ^ 12 := by
    change (pageCount.toNat : Int) ≤ 4096 ↔ _
    omega
  exact multiples.trans small.symm

/-! ### All faults of a region -/

/-- What the kernel reports of a fault while `uffdio_api.features` is 0: the start of the page
that is missing. -/
def reportedAddress (address : BitVec 64) : BitVec 64 := cleared 4095 address

theorem reportedAddress_toNat (address : BitVec 64) :
    (reportedAddress address).toNat = address.toNat / 2 ^ 12 * 2 ^ 12 := by
  apply (cleared_eq_roundDown_iff _ _ 12).mpr
  intro index _
  have mask : (4095 : BitVec 64).toNat = 2 ^ 12 - 1 := rfl
  rw [mask, Nat.testBit_two_pow_sub_one]

theorem reportedAddress_start (address : BitVec 64) : 4096 ∣ (reportedAddress address).toNat := by
  rw [reportedAddress_toNat]
  exact Nat.dvd_mul_left ..

theorem reportedAddress_inside (page : 4096 ∣ base)
    (inside : InRegion base pageCount.toNat address) :
    InRegion base pageCount.toNat (reportedAddress address) := by
  obtain ⟨lower, upper⟩ := inside
  obtain ⟨first, rfl⟩ := page
  rw [InRegion, reportedAddress_toNat]
  omega

/-- The page around a fault is filled exactly when the address that is reported is kept. -/
theorem fillsPage_reported_iff {destination : BitVec 64} (page : 4096 ∣ base)
    (inside : InRegion base pageCount.toNat address) :
    FillsPage base pageCount.toNat address destination ↔
      destination.toNat = (reportedAddress address).toNat := by
  rw [fillsPage_iff page inside, reportedAddress_toNat]

/-- A fault in the region of `page_count` pages is resolved by the page around it just when the
address that is reported has no bit of `page_count - 1`.  All faults are if, and only if, there
are no more pages than `MAX_SIZE`; with the formula of `part3.c` they always are. -/
theorem faultDestination_fills_iff (page : 4096 ∣ base) (accepted : 0 < pageCount.toNat)
    (fits : base + pageCount.toNat * 4096 ≤ 2 ^ 64) :
    (∀ address, InRegion base pageCount.toNat address →
      (FillsPage base pageCount.toNat address
          (faultDestination pageCount (reportedAddress address)) ↔
        ∀ index, (reportedAddress address).toNat.testBit index = true →
          (pageCount - 1).toNat.testBit index = false)) ∧
    ((∀ address, InRegion base pageCount.toNat address →
      FillsPage base pageCount.toNat address
        (faultDestination pageCount (reportedAddress address))) ↔
          (pageCount.toNat : Int) ≤ maxSize) ∧
    (∀ address, InRegion base pageCount.toNat address →
      FillsPage base pageCount.toNat address
        (faultDestinationPart3 4096 (reportedAddress address))) := by
  have keeps := faultDestination_keeps_iff page accepted fits
  refine ⟨?_, ⟨?_, ?_⟩, ?_⟩
  · intro address inside
    exact (fillsPage_reported_iff page inside).trans (cleared_eq_self_iff _ _)
  · intro fills
    apply keeps.mp
    intro address lower upper start
    -- the start of a page is reported as it is
    have same : reportedAddress address = address := by
      apply BitVec.eq_of_toNat_eq
      rw [reportedAddress_toNat]
      exact Nat.div_mul_cancel start
    have kept := (fillsPage_reported_iff page ⟨lower, upper⟩).mp (fills address ⟨lower, upper⟩)
    rwa [same] at kept
  · intro few address inside
    have reported := reportedAddress_inside page inside
    exact (fillsPage_reported_iff page inside).mpr
      (keeps.mpr few _ reported.1 reported.2 (reportedAddress_start address))
  · intro address inside
    apply (fillsPage_reported_iff page inside).mpr
    exact @cleared_of_multiple 64 (4096 - 1) _ 12 (by decide) (reportedAddress_start address)

end Starts

/-- With 4097 pages, a fault at the start of the second page asks for a destination that is
the start of the first. -/
theorem faultDestination_fills_fails :
    InRegion 65536 4097 69632 ∧ reportedAddress 69632 = 69632 ∧
      faultDestination 4097 69632 = 65536 ∧
      ¬ FillsPage 65536 4097 69632 (faultDestination 4097 (reportedAddress 69632)) := by
  refine ⟨⟨by decide, by decide⟩, by decide, by decide, ?_⟩
  intro fills
  exact absurd fills.above (by decide)

theorem faultDestination_fills_iff_two :
    (∀ address, InRegion 65536 (2#64).toNat address →
      (FillsPage 65536 (2#64).toNat address
          (faultDestination 2#64 (reportedAddress address)) ↔
        ∀ index, (reportedAddress address).toNat.testBit index = true →
          (2#64 - 1).toNat.testBit index = false)) ∧
    ((∀ address, InRegion 65536 (2#64).toNat address →
      FillsPage 65536 (2#64).toNat address
        (faultDestination 2#64 (reportedAddress address))) ↔
          ((2#64).toNat : Int) ≤ maxSize) ∧
    (∀ address, InRegion 65536 (2#64).toNat address →
      FillsPage 65536 (2#64).toNat address
        (faultDestinationPart3 4096 (reportedAddress address))) :=
  faultDestination_fills_iff (by decide) (by decide) (by decide)

end LKP.Dsm
