import LKP.Library.DemandPaging
import LKP.Library.AddressMask
import LKP.Library.CIntegers
import LKP.Library.CountedLoop

/-
The userfaultfd demo: `main` reads a region of missing pages three times over, and
`fault_handler_thread` fills each page with the letter of the faults handled so far.

The letters show which accesses were faults: the first loop faults once in each page, in
order, and the other two loops only read what is there.
-/

set_option autoImplicit false

namespace LKP.Uffd

open CBuffer CIntegers CountedLoop DemandPaging AddressMask

def pageSize : Nat := 4096

/-- The static variables of `fault_handler_thread`; the count stays far below the largest
`int`. -/
structure Handler where
  page : Buffer
  faultCnt : Nat

/-- `'A' + fault_cnt % 20`, as `memset` takes it. -/
def letter (faultCnt : Nat) : UInt8 := UInt8.ofNat (65 + faultCnt % 20)

def faultHandlerThread (base : Nat) : Pager Handler :=
  fun handler offset =>
    let page := memset handler.page 0 (letter handler.faultCnt) pageSize
    let address := BitVec.ofInt 64 (base + offset)
    let destination := cleared (BitVec.ofNat 64 pageSize - 1) address
    ((destination.toNat : Int) - base, page, ⟨page, handler.faultCnt + 1⟩)

/-- `#1. Read address .. in main(): ..`, the address counted from `addr`. -/
structure Line where
  loop : Nat
  address : Int
  c : UInt8
deriving DecidableEq

structure Demo where
  region : Region Handler
  lines : List Line

def layoutOf (len : UInt64) : Layout where
  size := pageSize
  positive := by decide
  pages := len.toNat / pageSize

def readAddress (base : Nat) (len : UInt64) (loop : Nat) (l : Int32) (demo : Demo) :
    Option Demo :=
  match demo.region.touch (layoutOf len) (faultHandlerThread base) l.toInt with
  | none => none
  | some region =>
      some ⟨region, demo.lines ++ [⟨loop, l.toInt, region.bytes l.toInt⟩]⟩

/-- `l = 0x0; while (l < len) { ..; l += stride; }`.  There is no result while the loop goes
on, and `none` when an access has not returned. -/
def readLoop (base : Nat) (len : UInt64) (loop : Nat) (stride : Int32) (fuel : Nat)
    (demo : Option Demo) : Option (Option Demo) :=
  countedLoop (fun l => widen l < len) (fun l => l + stride)
    (fun l demo => demo.bind (readAddress base len loop l)) fuel 0 demo

/-- `main` from the creation of the handler's thread on; `madvise` and the fourth loop are
commented out in the source. -/
def main (base : Nat) (numPages : UInt64) (fuel : Nat) (demo : Demo) : Option (Option Demo) :=
  let len := numPages * UInt64.ofNat pageSize
  match readLoop base len 1 2048 fuel (some demo) with
  | none => none
  | some first =>
      match readLoop base len 2 2048 fuel first with
      | none => none
      | some second => readLoop base len 3 1024 fuel second

structure Demo.Fresh (demo : Demo) : Prop where
  missing : ∀ page, demo.region.present page = false
  unhandled : demo.region.control.faultCnt = 0
  unprinted : demo.lines = []

def linesOf (loop stride rounds : Nat) : List Line :=
  (List.range rounds).map
    (fun round => ⟨loop, ((round * stride : Nat) : Int), letter (round * stride / pageSize)⟩)

/-! ### The handler -/

def pagesUpTo (count : Nat) : List Int := (List.range count).map (fun page : Nat => (page : Int))

theorem mem_pagesUpTo {count page : Nat} : (page : Int) ∈ pagesUpTo count ↔ page < count := by
  unfold pagesUpTo
  rw [List.mem_map]
  constructor
  · rintro ⟨other, within, same⟩
    rw [← Int.ofNat.inj same]
    exact List.mem_range.mp within
  · intro within
    exact ⟨page, List.mem_range.mpr within, rfl⟩

theorem idxOf_pagesUpTo {count page : Nat} (within : page < count) :
    (pagesUpTo count).idxOf (page : Int) = page := by
  have unique : (pagesUpTo count).Nodup :=
    List.nodup_range.map (fun _ _ same => Int.ofNat.inj same)
  have inside : page < (pagesUpTo count).length := by
    simp only [pagesUpTo, List.length_map, List.length_range]
    exact within
  have here : (pagesUpTo count)[page] = (page : Int) := by
    simp only [pagesUpTo, List.getElem_map, List.getElem_range]
  have found := unique.idxOf_getElem page inside
  rwa [here] at found

theorem pagesUpTo_succ (count : Nat) :
    pagesUpTo (count + 1) = pagesUpTo count ++ [(count : Int)] := by
  unfold pagesUpTo
  rw [List.range_succ, List.map_append]
  rfl

section Handler

variable {base : Nat} {len : UInt64}

structure PlacedAt (base : Nat) (len : UInt64) : Prop where
  aligned : 4096 ∣ base
  fits : base + len.toNat ≤ 2 ^ 64

theorem faultHandlerThread_counts (placedAt : PlacedAt base len) :
    (faultHandlerThread base).Counts (layoutOf len) Handler.faultCnt letter
      (fun _ => True) where
  placed := by
    intro handler page _good lower upper
    change page < ((len.toNat / 4096 : Nat) : Int) at upper
    have fits := placedAt.fits
    obtain ⟨first, start⟩ := placedAt.aligned
    have whole : (layoutOf len).start page = page * 4096 := rfl
    have address : (BitVec.ofInt 64 ((base : Int) + page * 4096)).toNat =
        base + page.toNat * 4096 := by
      rw [BitVec.toNat_ofInt]
      omega
    have low : (BitVec.ofNat 64 pageSize - 1).toNat < 2 ^ 12 := by decide
    have kept := @cleared_of_multiple 64 _ (BitVec.ofInt 64 ((base : Int) + page * 4096)) _ low
      (by rw [address]; exact ⟨first + page.toNat, by omega⟩)
    simp only [faultHandlerThread, whole]
    rw [kept, address]
    omega
  filled := by
    intro handler page offset _good _lower _upper first last
    exact memset_inside _ _ _ _ first (by rw [Int.zero_add]; exact last)
  counted := fun _ _ _ _ _ => rfl
  kept := fun _ _ _ _ _ => trivial

end Handler

/-! ### One round -/

section Rounds

variable {base : Nat} {len : UInt64} {count round stride : Nat} {loop : Nat} {demo : Demo}

abbrev Come (len : UInt64) (count : Nat) (region : Region Handler) : Prop :=
  region.FilledIn (layoutOf len) Handler.faultCnt letter (fun _ => True) (pagesUpTo count)

def counter (stride round : Nat) : Int32 := Int32.ofNat (round * stride)

theorem counter_toInt (small : round * stride < 2 ^ 31) :
    (counter stride round).toInt = ((round * stride : Nat) : Int) :=
  Int32.toInt_ofNat_of_lt small

theorem counter_succ : counter stride round + Int32.ofNat stride = counter stride (round + 1) := by
  rw [counter, counter, Nat.succ_mul, Int32.ofNat_add]

theorem counter_below (small : round * stride < 2 ^ 31) :
    widen (counter stride round) < len ↔ round * stride < len.toNat := by
  have value := counter_toInt small
  have wide := @widen_toNat (counter stride round) (by omega)
  rw [UInt64.lt_iff_toNat_lt]
  omega

theorem counter_page (small : round * stride < 2 ^ 31) :
    (layoutOf len).pageOf (counter stride round).toInt =
      ((round * stride / pageSize : Nat) : Int) := by
  rw [counter_toInt small]
  rfl

/-- A page that has come is only read. -/
theorem readAddress_again (come : Come len count demo.region)
    (small : round * stride < 2 ^ 31) (within : round * stride / pageSize < count) :
    readAddress base len loop (counter stride round) demo =
      some ⟨demo.region, demo.lines ++
        [⟨loop, ((round * stride : Nat) : Int), letter (round * stride / pageSize)⟩]⟩ := by
  have page := @counter_page len round stride small
  have member : (layoutOf len).pageOf (counter stride round).toInt ∈ pagesUpTo count := by
    rw [page]
    exact mem_pagesUpTo.mpr within
  have read := come.bytes _ member
  rw [page, idxOf_pagesUpTo within] at read
  simp only [readAddress, come.again member]
  rw [read, counter_toInt small]

/-- The next page comes with the next letter. -/
theorem readAddress_first (placedAt : PlacedAt base len) (come : Come len count demo.region)
    (small : round * stride < 2 ^ 31) (inside : round * stride < len.toNat / pageSize * pageSize)
    (next : round * stride / pageSize = count) :
    ∃ region, readAddress base len loop (counter stride round) demo =
        some ⟨region, demo.lines ++
          [⟨loop, ((round * stride : Nat) : Int), letter (round * stride / pageSize)⟩]⟩ ∧
      Come len (count + 1) region := by
  have page := @counter_page len round stride small
  have offset : (layoutOf len).Inside (counter stride round).toInt := by
    rw [counter_toInt small]
    refine ⟨Int.natCast_nonneg _, ?_⟩
    change ((round * stride : Nat) : Int) < ((len.toNat / pageSize : Nat) : Int) * pageSize
    exact_mod_cast inside
  have new : (layoutOf len).pageOf (counter stride round).toInt ∉ pagesUpTo count := by
    rw [page]
    intro member
    have before := mem_pagesUpTo.mp member
    omega
  obtain ⟨region, touched, after⟩ :=
    come.first (faultHandlerThread_counts placedAt) offset new
  rw [page, next, ← pagesUpTo_succ] at after
  have member : (layoutOf len).pageOf (counter stride round).toInt ∈ pagesUpTo (count + 1) := by
    rw [page]
    exact mem_pagesUpTo.mpr (by omega)
  have read := after.bytes _ member
  rw [page, idxOf_pagesUpTo (by omega)] at read
  refine ⟨region, ?_, after⟩
  simp only [readAddress, touched]
  rw [read, counter_toInt small]

/-! ### Whole loops -/

/-- A loop over the region is a fold over its rounds. -/
theorem readLoop_rounds {rounds fuel : Nat} (positive : 0 < stride)
    (whole : rounds * stride = len.toNat) (small : len.toNat < 2 ^ 31) (enough : rounds < fuel)
    (start : Option Demo) :
    readLoop base len loop (Int32.ofNat stride) fuel start =
      some ((List.range rounds).foldl
        (fun demo round => demo.bind (readAddress base len loop (counter stride round)))
        start) := by
  have below : ∀ round ≤ rounds, round * stride < 2 ^ 31 := by
    intro round within
    have bound := Nat.mul_le_mul_right stride within
    omega
  have zero : (0 : Int32) = counter stride 0 := by
    rw [counter, Nat.zero_mul]
    rfl
  rw [readLoop, zero]
  apply countedLoop_rounds (counter stride) _ _ _ enough
  · intro round _within
    exact counter_succ
  · intro round within
    apply decide_eq_true
    apply (counter_below (below round (Nat.le_of_lt within))).mpr
    have bound := Nat.mul_le_mul_right stride (Nat.succ_le_of_lt within)
    rw [Nat.succ_mul] at bound
    omega
  · apply decide_eq_false
    intro running
    have bound := (counter_below (below rounds (Nat.le_refl _))).mp running
    omega

theorem linesOf_succ (loop stride rounds : Nat) :
    linesOf loop stride (rounds + 1) = linesOf loop stride rounds ++
      [⟨loop, ((rounds * stride : Nat) : Int), letter (rounds * stride / pageSize)⟩] := by
  unfold linesOf
  rw [List.range_succ, List.map_append]
  rfl

/-- The rounds over pages that have all come. -/
theorem rounds_again (come : Come len count demo.region) {rounds : Nat}
    (small : rounds * stride < 2 ^ 31) (all : rounds * stride ≤ count * pageSize)
    (positive : 0 < stride) :
    (List.range rounds).foldl
        (fun demo round => demo.bind (readAddress base len loop (counter stride round)))
        (some demo) =
      some ⟨demo.region, demo.lines ++ linesOf loop stride rounds⟩ := by
  induction rounds with
  | zero => simp [linesOf]
  | succ rounds ih =>
      rw [Nat.succ_mul] at small all
      have within : rounds * stride / pageSize < count :=
        (Nat.div_lt_iff_lt_mul (by decide)).mpr (by omega)
      rw [List.range_succ, List.foldl_append, ih (by omega) (by omega), List.foldl_cons,
        List.foldl_nil, Option.bind_some,
        @readAddress_again base len count rounds stride loop
          ⟨demo.region, demo.lines ++ linesOf loop stride rounds⟩ come (by omega) within,
        linesOf_succ, List.append_assoc]

def pagesRead (stride : Nat) : Nat → Nat
  | 0 => 0
  | round + 1 => round * stride / pageSize + 1

/-- The rounds over a region of missing pages, in steps of a page at most. -/
theorem rounds_first (placedAt : PlacedAt base len) (come : Come len 0 demo.region)
    (step : stride ≤ pageSize) {rounds : Nat} (small : rounds * stride < 2 ^ 31)
    (all : rounds * stride ≤ len.toNat / pageSize * pageSize) (positive : 0 < stride) :
    ∃ region, (List.range rounds).foldl
        (fun demo round => demo.bind (readAddress base len loop (counter stride round)))
        (some demo) = some ⟨region, demo.lines ++ linesOf loop stride rounds⟩ ∧
      Come len (pagesRead stride rounds) region := by
  induction rounds with
  | zero => exact ⟨demo.region, by simp [linesOf], come⟩
  | succ rounds ih =>
      rw [Nat.succ_mul] at small all
      obtain ⟨region, before, read⟩ := ih (by omega) (by omega)
      rw [List.range_succ, List.foldl_append, before, List.foldl_cons, List.foldl_nil,
        Option.bind_some, linesOf_succ, ← List.append_assoc]
      -- the page of this round is the last one read, or the one behind it
      have page : rounds * stride / pageSize = pagesRead stride rounds ∨
          rounds * stride / pageSize + 1 = pagesRead stride rounds := by
        cases rounds with
        | zero =>
            left
            rw [Nat.zero_mul]
            rfl
        | succ earlier =>
            unfold pagesRead
            rw [Nat.succ_mul]
            change stride ≤ 4096 at step
            change (earlier * stride + stride) / 4096 = earlier * stride / 4096 + 1 ∨
              (earlier * stride + stride) / 4096 + 1 = earlier * stride / 4096 + 1
            omega
      rcases page with next | last
      · obtain ⟨after, stepped, comes⟩ := @readAddress_first base len _ rounds stride loop
          ⟨region, demo.lines ++ linesOf loop stride rounds⟩ placedAt read (by omega) (by omega)
          next
        refine ⟨after, stepped, ?_⟩
        rw [pagesRead, next]
        exact comes
      · have stepped := @readAddress_again base len _ rounds stride loop
          ⟨region, demo.lines ++ linesOf loop stride rounds⟩ read (by omega) (by omega)
        refine ⟨region, stepped, ?_⟩
        rw [pagesRead, last]
        exact read

end Rounds

/-! ### The whole of `main` -/

theorem Demo.Fresh.come {demo : Demo} (fresh : demo.Fresh) (len : UInt64) :
    Come len 0 demo.region where
  present page := by
    rw [fresh.missing page]
    exact ⟨fun none => (nomatch none), fun none => (nomatch none)⟩
  bytes offset none := nomatch none
  counted := fresh.unhandled
  good := trivial

/-- For every page count that leaves `l` an `int`: the first loop handles one fault for each
page, in order, and prints two lines for each page, both with its letter; the other two loops
handle no fault and print the same letters again. -/
theorem main_lines {base : Nat} {numPages : UInt64} (positive : 0 < numPages.toNat)
    (few : numPages.toNat < 2 ^ 19)
    (placedAt : PlacedAt base (numPages * UInt64.ofNat pageSize)) {demo : Demo}
    (fresh : demo.Fresh) {fuel : Nat} (enough : 4 * numPages.toNat < fuel) :
    ∃ region : Region Handler,
      readLoop base (numPages * UInt64.ofNat pageSize) 1 2048 fuel (some demo) =
        some (some ⟨region, linesOf 1 2048 (2 * numPages.toNat)⟩) ∧
      region.control.faultCnt = numPages.toNat ∧
      (∀ page, region.present page = true ↔ 0 ≤ page ∧ page < numPages.toNat) ∧
      main base numPages fuel demo = some (some ⟨region, linesOf 1 2048 (2 * numPages.toNat) ++
        linesOf 2 2048 (2 * numPages.toNat) ++ linesOf 3 1024 (4 * numPages.toNat)⟩) := by
  have length : (numPages * UInt64.ofNat pageSize).toNat = numPages.toNat * 4096 := by
    rw [UInt64.toNat_mul]
    exact Nat.mod_eq_of_lt (by change numPages.toNat * 4096 < _; omega)
  obtain ⟨region, rounds, come⟩ := @rounds_first base _ 2048 1 demo placedAt
    (fresh.come _) (by decide) (2 * numPages.toNat) (by omega)
    (by rw [length]; change _ ≤ numPages.toNat * 4096 / 4096 * 4096; omega) (by decide)
  have pages : pagesRead 2048 (2 * numPages.toNat) = numPages.toNat := by
    obtain ⟨more, whole⟩ : ∃ more, numPages.toNat = more + 1 := ⟨numPages.toNat - 1, by omega⟩
    rw [whole]
    change (2 * more + 1) * 2048 / 4096 + 1 = more + 1
    omega
  rw [pages] at come
  rw [fresh.unprinted, List.nil_append] at rounds
  have first : readLoop base (numPages * UInt64.ofNat pageSize) 1 2048 fuel (some demo) =
      some (some ⟨region, linesOf 1 2048 (2 * numPages.toNat)⟩) := by
    rw [← rounds]
    exact @readLoop_rounds base _ 2048 1 (2 * numPages.toNat) fuel (by decide)
      (by rw [length]; omega) (by omega) (by omega) _
  have again : ∀ (loop stride rounds : Nat) (lines : List Line), 0 < stride →
      rounds * stride = numPages.toNat * 4096 → rounds < fuel →
      readLoop base (numPages * UInt64.ofNat pageSize) loop (Int32.ofNat stride) fuel
          (some ⟨region, lines⟩) =
        some (some ⟨region, lines ++ linesOf loop stride rounds⟩) := by
    intro loop stride rounds lines some whole fuelled
    rw [readLoop_rounds some (by rw [length]; exact whole) (by omega) fuelled]
    exact congrArg Option.some (@rounds_again base _ numPages.toNat stride loop
      ⟨region, lines⟩ come rounds (by omega) (by change _ ≤ numPages.toNat * 4096; omega) some)
  refine ⟨region, first, ?_, ?_, ?_⟩
  · rw [come.counted]
    simp [pagesUpTo]
  · intro page
    rw [come.present]
    simp only [pagesUpTo, List.mem_map, List.mem_range]
    constructor
    · rintro ⟨number, within, rfl⟩
      omega
    · intro within
      exact ⟨page.toNat, by omega, by omega⟩
  · have second := again 2 2048 (2 * numPages.toNat) (linesOf 1 2048 (2 * numPages.toNat))
      (by decide) (by omega) (by omega)
    have third := again 3 1024 (4 * numPages.toNat)
      (linesOf 1 2048 (2 * numPages.toNat) ++ linesOf 2 2048 (2 * numPages.toNat))
      (by decide) (by omega) (by omega)
    unfold main
    simp only [first]
    rw [show (2048 : Int32) = Int32.ofNat 2048 from rfl, second]
    exact third

theorem main_lines_three :
    ∃ region : Region Handler,
      readLoop 65536 (3 * UInt64.ofNat pageSize) 1 2048 13
          (some ⟨⟨fun _ => false, fun _ => 0, ⟨fun _ => 0, 0⟩⟩, []⟩) =
        some (some ⟨region, linesOf 1 2048 (2 * (3 : UInt64).toNat)⟩) ∧
      region.control.faultCnt = (3 : UInt64).toNat ∧
      (∀ page, region.present page = true ↔ 0 ≤ page ∧ page < (3 : UInt64).toNat) ∧
      main 65536 3 13 ⟨⟨fun _ => false, fun _ => 0, ⟨fun _ => 0, 0⟩⟩, []⟩ =
        some (some ⟨region, linesOf 1 2048 (2 * (3 : UInt64).toNat) ++
          linesOf 2 2048 (2 * (3 : UInt64).toNat) ++ linesOf 3 1024 (4 * (3 : UInt64).toNat)⟩) :=
  main_lines (by decide) (by decide) ⟨by decide, by decide⟩
    ⟨fun _ => rfl, rfl, rfl⟩ (by decide)

end LKP.Uffd
