import LKP.Library.CBuffer
import LKP.Library.CIntegers
import LKP.Library.CountedLoop

/-
`mem_read` and `mem_write` of part 3, with the types of their offsets.

The offset of a page is an `int`, to which an unsigned long number is added, and which is
compared with an unsigned long length.  That is exact up to two gigabytes; the first page
beyond lies at a negative offset.
-/

set_option autoImplicit false

namespace LKP.Proj3

open CBuffer CIntegers CountedLoop

/-! ### Part 3 -/

def pageSize : UInt64 := 4096

/-- `stuff`, as far as it is read; `addr` is what the mapping holds. -/
structure Stuff where
  addr : Buffer
  pgSize : UInt64
  length : UInt64

def mapped (addr : Buffer) (pgSize : UInt64) : Stuff :=
  { addr := addr, pgSize := pgSize, length := pgSize * pageSize }

def Stuff.accepts (mch : Stuff) (access : UInt64) : Bool :=
  access < mch.pgSize || access == -1

/-- `while (l < mch.length) { …; l += page_size; }`, from 0 on. -/
def pageLoop {State : Type} (length : UInt64) (body : Int32 → State → State) (fuel : Nat)
    (state : State) : Option State :=
  countedLoop (fun l => widen l < length) (fun l => intAdd l pageSize) body fuel 0 state

/-- What is printed of a page: where it was read, and the string there, as far as the mapping
goes. -/
structure PageRead where
  offset : Int
  text : List UInt8

def Stuff.readAt (mch : Stuff) (l : Int32) : PageRead :=
  { offset := l.toInt, text := cString mch.addr l.toInt (mch.length.toNat - l.toInt.toNat) }

def memRead (mch : Stuff) (num : UInt64) (fuel : Nat) : Option (List PageRead) :=
  if num = -1 then
    pageLoop mch.length (fun l reads => reads ++ [mch.readAt l]) fuel []
  else
    some [mch.readAt (intAdd 0 (num * pageSize))]

/-- `memcpy(mch.addr+l, msg, strlen(msg))`, with a note of the offset. -/
def copyTo (msg : List UInt8) (l : Int32) (state : Buffer × List Int) : Buffer × List Int :=
  (memcpy state.1 l.toInt (strBytes msg), state.2 ++ [l.toInt])

/-- `mem_write`: what the mapping holds after it, and the offsets that were written, in order. -/
def memWrite (mch : Stuff) (num : UInt64) (msg : List UInt8) (fuel : Nat) :
    Option (Buffer × List Int) :=
  if num = -1 then
    pageLoop mch.length (copyTo msg) fuel (mch.addr, [])
  else
    some (copyTo msg (intAdd 0 (num * pageSize)) (mch.addr, []))

/-! ### Which offsets are expected -/

def pageOffsets (pages : Nat) : List Int :=
  (List.range pages).map (fun page : Nat => (page : Int) * 4096)

def SingleRight (mch : Stuff) (num : UInt64) : Prop :=
  ∀ msg fuel,
    (memRead mch num fuel).map (List.map PageRead.offset) = some [(num.toNat : Int) * 4096] ∧
    (memWrite mch num msg fuel).map Prod.snd = some [(num.toNat : Int) * 4096]

def AllRight (mch : Stuff) : Prop :=
  ∃ enough, ∀ fuel, enough ≤ fuel → ∀ msg,
    (∃ reads, memRead mch (-1) fuel = some reads ∧
      (reads.map PageRead.offset).Perm (pageOffsets mch.pgSize.toNat)) ∧
    ∃ written, memWrite mch (-1) msg fuel = some written ∧
      written.2.Perm (pageOffsets mch.pgSize.toNat)

def OffsetsRight (mch : Stuff) : Prop :=
  (∀ num, mch.accepts num = true → num ≠ -1 → SingleRight mch num) ∧ AllRight mch

/-! ### The loop over the pages -/

def intOffset (page : Nat) : Int32 := Int32.ofNat (page * 4096)

theorem intOffset_toInt (page : Nat) :
    (intOffset page).toInt = ((page * 4096 : Nat) : Int).bmod (2 ^ 32) :=
  Int32.toInt_ofNat'

theorem intOffset_of_small {page : Nat} (small : page < 2 ^ 19) :
    (intOffset page).toInt = (page : Int) * 4096 := by
  rw [intOffset, Int32.toInt_ofNat_of_lt (by omega)]
  omega

theorem intOffset_succ (page : Nat) :
    intAdd (intOffset page) pageSize = intOffset (page + 1) := by
  rw [intAdd_eq, intOffset, intOffset, Nat.succ_mul, Int32.ofNat_add]
  rfl

/-- The offset behind the last page is not below the length, also when it is negative. -/
theorem intOffset_stops {pages : Nat} (few : pages ≤ 2 ^ 19) {length : UInt64}
    (long : length.toNat = pages * 4096) : ¬ widen (intOffset pages) < length := by
  rw [UInt64.lt_iff_toNat_lt, long]
  by_cases small : pages < 2 ^ 19
  · have offset := intOffset_of_small small
    have value := @widen_toNat (intOffset pages) (by omega)
    omega
  · have last : pages = 2 ^ 19 := by omega
    rw [last]
    decide

theorem pageLoop_pages {State : Type} {pages fuel : Nat} (few : pages ≤ 2 ^ 19)
    {length : UInt64} (long : length.toNat = pages * 4096) (enough : pages < fuel)
    (body : Int32 → State → State) (state : State) :
    pageLoop length body fuel state =
      some ((List.range pages).foldl (fun state page => body (intOffset page) state) state) := by
  apply countedLoop_rounds intOffset
  · exact fun page _ => intOffset_succ page
  · intro page before
    have offset := @intOffset_of_small page (by omega)
    have value := @widen_toNat (intOffset page) (by omega)
    rw [decide_eq_true_eq, UInt64.lt_iff_toNat_lt, long]
    omega
  · rw [decide_eq_false_iff_not]
    exact intOffset_stops few long
  · exact enough

/-! ### One page -/

theorem singleOffset (num : UInt64) :
    (intAdd 0 (num * pageSize)).toInt = ((num.toNat * 4096 : Nat) : Int).bmod (2 ^ 32) := by
  have product : (num * pageSize).toNat = num.toNat * 4096 % 2 ^ 64 := UInt64.toNat_mul _ _
  have size : Int32.size = 2 ^ 32 := rfl
  rw [intAdd_eq, Int32.zero_add, Int32.toInt_ofNat', product, size]
  simp only [Int.bmod]
  omega

theorem singleRight_iff (mch : Stuff) {num : UInt64} (single : num ≠ -1) :
    SingleRight mch num ↔ num.toNat * 4096 < 2 ^ 31 := by
  have exact : (intAdd 0 (num * pageSize)).toInt = (num.toNat : Int) * 4096 ↔
      num.toNat * 4096 < 2 ^ 31 := by
    rw [singleOffset]
    simp only [Int.bmod]
    omega
  rw [← exact]
  constructor
  · intro right
    have read := (right [] 0).1
    rw [memRead, if_neg single] at read
    exact List.head_eq_of_cons_eq (Option.some.inj read)
  · intro same msg fuel
    rw [memRead, memWrite, if_neg single, if_neg single, ← same]
    exact ⟨rfl, rfl⟩

/-! ### All pages -/

variable {mch : Stuff} {pages fuel : Nat}

theorem memRead_all (few : pages ≤ 2 ^ 19) (long : mch.length.toNat = pages * 4096)
    (enough : pages < fuel) :
    memRead mch (-1) fuel =
      some ((List.range pages).map (fun page => mch.readAt (intOffset page))) := by
  rw [memRead, if_pos rfl, pageLoop_pages few long enough,
    foldl_noted (fun page => mch.readAt (intOffset page)), List.nil_append]

theorem memWrite_all (few : pages ≤ 2 ^ 19) (long : mch.length.toNat = pages * 4096)
    (enough : pages < fuel) (msg : List UInt8) :
    memWrite mch (-1) msg fuel =
      some ((List.range pages).foldl
        (fun state page => copyTo msg (intOffset page) state) (mch.addr, [])) := by
  rw [memWrite, if_pos rfl, pageLoop_pages few long enough]

theorem copyTo_offsets (msg : List UInt8) (pages : List Nat) (state : Buffer × List Int) :
    (pages.foldl (fun state page => copyTo msg (intOffset page) state) state).2 =
      state.2 ++ pages.map (fun page => (intOffset page).toInt) := by
  induction pages generalizing state with
  | nil => exact (List.append_nil _).symm
  | cons page pages ih =>
      rw [List.foldl_cons, ih, copyTo, List.append_assoc]
      rfl

theorem map_intOffset (few : pages ≤ 2 ^ 19) :
    (List.range pages).map (fun page => (intOffset page).toInt) = pageOffsets pages := by
  apply List.map_congr_left
  intro page member
  have before := List.mem_range.mp member
  exact intOffset_of_small (Nat.lt_of_lt_of_le before few)

theorem mapped_length (addr : Buffer) {pgSize : UInt64} (few : pgSize.toNat ≤ 2 ^ 19) :
    (mapped addr pgSize).length.toNat = pgSize.toNat * 4096 := by
  have product : (pgSize * pageSize).toNat = pgSize.toNat * 4096 % 2 ^ 64 :=
    UInt64.toNat_mul _ _
  rw [mapped, product]
  omega

/-- Beyond two gigabytes there is an offset that no `int` has. -/
theorem not_perm_pageOffsets (many : 2 ^ 19 < pages) (offsets : List Int32) :
    ¬ (offsets.map Int32.toInt).Perm (pageOffsets pages) := by
  intro same
  have far : (2 ^ 31 : Int) ∈ pageOffsets pages :=
    List.mem_map.mpr ⟨2 ^ 19, List.mem_range.mpr many, rfl⟩
  obtain ⟨l, _, value⟩ := List.mem_map.mp (same.mem_iff.mpr far)
  have bound := l.toInt_lt
  omega

/-- The loops over all pages are right up to two gigabytes. -/
theorem allRight_iff (addr : Buffer) (pgSize : UInt64) :
    AllRight (mapped addr pgSize) ↔ pgSize.toNat ≤ 2 ^ 19 := by
  constructor
  · intro right
    by_contra many
    obtain ⟨enough, right⟩ := right
    obtain ⟨⟨reads, run, visited⟩, _⟩ := right enough (Nat.le_refl enough) []
    rw [memRead, if_pos rfl] at run
    obtain ⟨offsets, same⟩ := countedLoop_ended run
    rw [foldl_noted, List.nil_append] at same
    rw [same, List.map_map] at visited
    exact not_perm_pageOffsets (Nat.lt_of_not_le many) offsets visited
  · intro few
    have long := mapped_length addr few
    refine ⟨pgSize.toNat + 1, fun fuel enough msg => ⟨⟨_, memRead_all few long enough, ?_⟩,
      _, memWrite_all few long enough msg, ?_⟩⟩
    · rw [List.map_map]
      exact List.Perm.of_eq (map_intOffset few)
    · rw [copyTo_offsets, List.nil_append]
      exact List.Perm.of_eq (map_intOffset few)

/-- The offsets are right exactly for regions of up to two gigabytes. -/
theorem offsetsRight_iff (addr : Buffer) (pgSize : UInt64) :
    OffsetsRight (mapped addr pgSize) ↔ pgSize.toNat ≤ 2 ^ 19 := by
  constructor
  · intro right
    exact (allRight_iff addr pgSize).mp right.2
  · intro few
    refine ⟨?_, (allRight_iff addr pgSize).mpr few⟩
    intro num accepted single
    have inside : num < pgSize := by
      rcases Bool.or_eq_true_iff.mp accepted with lower | all
      · exact of_decide_eq_true lower
      · exact absurd (eq_of_beq all) single
    have before := UInt64.lt_iff_toNat_lt.mp inside
    exact (singleRight_iff _ single).mpr (by omega)

/-- The page behind two gigabytes is accepted, and is read at a negative offset. -/
theorem offsetsRight_fails :
    (mapped (fun _ => 0) 524289).accepts 524288 = true ∧
      (memRead (mapped (fun _ => 0) 524289) 524288 0).map (List.map PageRead.offset) =
        some [-2147483648] ∧
      ¬ OffsetsRight (mapped (fun _ => 0) 524289) := by
  refine ⟨by decide, by decide +kernel, ?_⟩
  intro right
  have wrong := (singleRight_iff _ (by decide)).mp (right.1 524288 (by decide) (by decide))
  exact absurd wrong (by decide)

end LKP.Proj3
