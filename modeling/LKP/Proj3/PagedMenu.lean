import LKP.Dsm.FaultHandler
import LKP.Library.DemandPaging
import LKP.Library.LockStep
import LKP.Proj3.LastWrite

/-
The menu of part 3 on a region whose pages `fault_handler_thread` brings.

The mapping is registered before it is touched, so that the first access to each page is a
fault, which the thread answers with a page of zeros from `mmap`.  Reads touch a page up to
the NUL that ends the string, and writes touch what they copy to.
-/

set_option autoImplicit false

namespace LKP.Proj3

open CBuffer CIntegers CountedLoop DemandPaging TransitionRun LockStep

/-! ### The menu -/

inductive Typed
  | read (access : UInt64)
  | write (access : UInt64) (message : List UInt8)

/-- The lines that are printed; the line of an address and the string at it are taken
together. -/
inductive Printed
  | readingPage (num : UInt64)
  | readingAllPages
  | page (read : PageRead)
  | cantRead
  | cantWrite

def headings (num : UInt64) : List Printed :=
  if num = -1 then [.readingPage num, .readingAllPages] else [.readingPage num]

/-- One command of `menu`, where the mapping holds zeros from the start. -/
def menuStep (fuel : Nat) : StepFunction Stuff Typed Printed := fun mch typed =>
  match typed with
  | .read access =>
      if mch.accepts access then
        (memRead mch access fuel).map (fun reads => (mch, headings access ++ reads.map .page))
      else some (mch, [.cantRead])
  | .write access message =>
      if mch.accepts access then
        (memWrite mch access message fuel).map (fun (addr, _) => ({ mch with addr := addr }, []))
      else some (mch, [.cantWrite])

/-! ### The menu on pages -/

def pagesOf (pgSize : UInt64) : Layout where
  size := 4096
  positive := Nat.succ_pos 4095
  pages := pgSize.toNat

/-- `fault_handler_thread`, one round: `page` is what `mmap` gave, and nothing changes it. -/
def faultHandlerThread (base : Nat) : Pager Buffer := fun page offset =>
  let address := BitVec.ofInt 64 (base + offset)
  let dst := Dsm.faultDestinationPart3 4096 address
  ((dst.toNat : Int) - base, page, page)

/-- `mch` with its region; `addr` is the start of the mapping. -/
structure PagedStuff where
  base : Nat
  pgSize : UInt64
  length : UInt64
  region : Region Buffer

namespace PagedStuff

variable (mch : PagedStuff)

def readAt (l : Int32) (region : Region Buffer) : Option (Region Buffer × PageRead) :=
  let limit := mch.length.toNat - l.toInt.toNat
  (region.touchText (pagesOf mch.pgSize) (faultHandlerThread mch.base) limit l.toInt).map
    (fun region => (region, { offset := l.toInt, text := cString region.bytes l.toInt limit }))

/-- One round of the loop over all pages; a thread that has gone to sleep makes no more. -/
def readRound (l : Int32) (state : Option (Region Buffer × List PageRead)) :
    Option (Region Buffer × List PageRead) :=
  state.bind (fun (region, reads) =>
    (mch.readAt l region).map (fun (region, read) => (region, reads ++ [read])))

def memRead (num : UInt64) (fuel : Nat) : Option (Region Buffer × List PageRead) :=
  if num = -1 then
    (pageLoop mch.length mch.readRound fuel (some (mch.region, []))).join
  else mch.readRound (intAdd 0 (num * pageSize)) (some (mch.region, []))

def copyTo (msg : List UInt8) (l : Int32) (state : Option (Region Buffer)) :
    Option (Region Buffer) :=
  state.bind (fun region =>
    (region.touchEach (pagesOf mch.pgSize) (faultHandlerThread mch.base)
        ((List.range (strBytes msg).length).map (fun index : Nat => l.toInt + index))).map
      (fun region =>
        { region with bytes := memcpy region.bytes l.toInt (strBytes msg) }))

def memWrite (num : UInt64) (msg : List UInt8) (fuel : Nat) : Option (Region Buffer) :=
  if num = -1 then (pageLoop mch.length (mch.copyTo msg) fuel (some mch.region)).join
  else mch.copyTo msg (intAdd 0 (num * pageSize)) (some mch.region)

def accepts (access : UInt64) : Bool := access < mch.pgSize || access == -1

end PagedStuff

def pagedMenuStep (fuel : Nat) : StepFunction PagedStuff Typed Printed := fun mch typed =>
  match typed with
  | .read access =>
      if mch.accepts access then
        (mch.memRead access fuel).map (fun (region, reads) =>
          ({ mch with region := region }, headings access ++ reads.map .page))
      else some (mch, [.cantRead])
  | .write access message =>
      if mch.accepts access then
        (mch.memWrite access message fuel).map (fun region =>
          ({ mch with region := region }, []))
      else some (mch, [.cantWrite])

def Typed.Fitting : Typed → Prop
  | .read _ => True
  | .write _ message => message.length < 4096

/-! ### The handler -/

def Zeroed (page : Buffer) : Prop :=
  ∀ offset : Int, 0 ≤ offset → offset < 4096 → page offset = 0

section Handler

variable {base : Nat} {pgSize : UInt64}

/-- Every fault is answered with a page of zeros in its place, however many pages there
are. -/
theorem faultHandlerThread_provides (aligned : 4096 ∣ base)
    (fits : base + pgSize.toNat * 4096 ≤ 2 ^ 64) :
    (faultHandlerThread base).Provides (pagesOf pgSize) Zeroed (fun _ => 0) where
  placed := by
    intro control page _ lower upper
    have within : page < pgSize.toNat := upper
    have whole : (pagesOf pgSize).start page = page * 4096 := rfl
    have address : (BitVec.ofInt 64 ((base : Int) + page * 4096)).toNat =
        base + page.toNat * 4096 := by
      rw [BitVec.toNat_ofInt]
      omega
    have inside : Dsm.InRegion base pgSize.toNat (BitVec.ofInt 64 ((base : Int) + page * 4096)) := by
      rw [Dsm.InRegion, address]
      omega
    have rounded := (Dsm.fillsPage_iff aligned inside).mp
      (Dsm.faultDestinationPart3_fills aligned inside)
    obtain ⟨first, start⟩ := aligned
    rw [faultHandlerThread, whole]
    change ((Dsm.faultDestinationPart3 4096 _).toNat : Int) - base = _
    rw [rounded, address]
    omega
  filled := by
    intro control page offset zeroed _ _ lower upper
    exact zeroed offset lower upper
  kept := by
    intro control page zeroed _ _
    exact zeroed

end Handler

/-! ### Reads and writes -/

structure StandsIn (plain : Stuff) (paged : PagedStuff) : Prop where
  aligned : 4096 ∣ paged.base
  fits : paged.base + plain.pgSize.toNat * 4096 ≤ 2 ^ 64
  pgSize : paged.pgSize = plain.pgSize
  length : paged.length = plain.length
  whole : plain.length.toNat = plain.pgSize.toNat * 4096
  few : plain.pgSize.toNat ≤ 2 ^ 19
  region : paged.region.StandsFor (pagesOf plain.pgSize) Zeroed (fun _ => 0) plain.addr

namespace StandsIn

variable {plain : Stuff} {paged : PagedStuff} {region : Region Buffer} {page : Nat}

theorem inside (stands : StandsIn plain paged) (offset : Int) (lower : 0 ≤ offset)
    (upper : offset < plain.length.toNat) : (pagesOf plain.pgSize).Inside offset := by
  have whole := stands.whole
  have last : (pagesOf plain.pgSize).start plain.pgSize.toNat = plain.pgSize.toNat * 4096 := rfl
  refine ⟨lower, ?_⟩
  change offset < (pagesOf plain.pgSize).start plain.pgSize.toNat
  rw [last]
  omega

theorem provides (stands : StandsIn plain paged) :
    (faultHandlerThread paged.base).Provides (pagesOf plain.pgSize) Zeroed (fun _ => 0) :=
  faultHandlerThread_provides stands.aligned stands.fits

/-- A string is read as it is without faults. -/
theorem readRound (stands : StandsIn plain paged) (within : page < plain.pgSize.toNat)
    (backs : region.StandsFor (pagesOf plain.pgSize) Zeroed (fun _ => 0) plain.addr)
    (reads : List PageRead) :
    ∃ after, paged.readRound (intOffset page) (some (region, reads)) =
        some (after, reads ++ [plain.readAt (intOffset page)]) ∧
      after.StandsFor (pagesOf plain.pgSize) Zeroed (fun _ => 0) plain.addr := by
  have few := stands.few
  have offset := @intOffset_of_small page (by omega)
  obtain ⟨after, touched, served, text⟩ := backs.touchText stands.provides
    (plain.length.toNat - (intOffset page).toInt.toNat) (intOffset page).toInt (by
      intro index lower upper
      apply stands.inside
      · omega
      · omega)
  refine ⟨after, ?_, served.standsFor⟩
  simp only [PagedStuff.readRound, PagedStuff.readAt, Option.bind_some, stands.pgSize,
    stands.length, touched, Option.map_some, text]
  rfl

theorem readRounds (stands : StandsIn plain paged) {pages : Nat}
    (few : pages ≤ plain.pgSize.toNat) :
    ∃ after, (List.range pages).foldl
        (fun state page => paged.readRound (intOffset page) state) (some (paged.region, [])) =
          some (after, (List.range pages).map (fun page => plain.readAt (intOffset page))) ∧
      after.StandsFor (pagesOf plain.pgSize) Zeroed (fun _ => 0) plain.addr := by
  induction pages with
  | zero => exact ⟨paged.region, rfl, stands.region⟩
  | succ pages ih =>
      obtain ⟨middle, before, backs⟩ := ih (by omega)
      obtain ⟨after, round, ends⟩ := stands.readRound (Nat.lt_of_succ_le few) backs
        ((List.range pages).map (fun page => plain.readAt (intOffset page)))
      refine ⟨after, ?_, ends⟩
      rw [List.range_succ, List.foldl_concat, before, round, List.map_append, List.map_singleton]

/-- A message is copied as it is without faults. -/
theorem copyTo (stands : StandsIn plain paged) (within : page < plain.pgSize.toNat)
    {addr : Buffer} (backs : region.StandsFor (pagesOf plain.pgSize) Zeroed (fun _ => 0) addr)
    {msg : List UInt8} (short : msg.length < 4096) (noted : List Int) :
    ∃ after, paged.copyTo msg (intOffset page) (some region) = some after ∧
      after.StandsFor (pagesOf plain.pgSize) Zeroed (fun _ => 0)
        (Proj3.copyTo msg (intOffset page) (addr, noted)).1 := by
  have few := stands.few
  have whole := stands.whole
  have offset := @intOffset_of_small page (by omega)
  have length := strBytes_length_le msg
  have inside : ∀ index, (intOffset page).toInt ≤ index →
      index < (intOffset page).toInt + (strBytes msg).length →
      (pagesOf plain.pgSize).Inside index := by
    intro index lower upper
    apply stands.inside
    · omega
    · omega
  obtain ⟨after, touched, served⟩ := backs.touchBlock stands.provides inside
  refine ⟨{ after with bytes := memcpy after.bytes (intOffset page).toInt (strBytes msg) }, ?_,
    served.standsFor.copied served.available⟩
  simp only [PagedStuff.copyTo, Option.bind_some, stands.pgSize, touched, Option.map_some]

theorem copies (stands : StandsIn plain paged) {msg : List UInt8} (short : msg.length < 4096)
    {pages : Nat} (few : pages ≤ plain.pgSize.toNat) :
    ∃ after, (List.range pages).foldl
        (fun state page => paged.copyTo msg (intOffset page) state) (some paged.region) =
          some after ∧
      after.StandsFor (pagesOf plain.pgSize) Zeroed (fun _ => 0)
        ((List.range pages).foldl
          (fun state page => Proj3.copyTo msg (intOffset page) state) (plain.addr, [])).1 := by
  induction pages with
  | zero => exact ⟨paged.region, rfl, stands.region⟩
  | succ pages ih =>
      obtain ⟨middle, before, backs⟩ := ih (by omega)
      obtain ⟨after, round, ends⟩ :=
        stands.copyTo (Nat.lt_of_succ_le few) backs short ((List.range pages).foldl
          (fun state page => Proj3.copyTo msg (intOffset page) state) (plain.addr, [])).2
      refine ⟨after, ?_, ?_⟩
      · rw [List.range_succ, List.foldl_concat, before, round]
      · rw [List.range_succ, List.foldl_concat]
        exact ends

variable {fuel : Nat}

theorem memRead (stands : StandsIn plain paged) (enough : plain.pgSize.toNat < fuel)
    {num : UInt64} (accepted : plain.accepts num = true) :
    ∃ after reads, paged.memRead num fuel = some (after, reads) ∧
      Proj3.memRead plain num fuel = some reads ∧
      after.StandsFor (pagesOf plain.pgSize) Zeroed (fun _ => 0) plain.addr := by
  by_cases all : num = -1
  · obtain ⟨after, rounds, ends⟩ := stands.readRounds (Nat.le_refl _)
    have read := memRead_all stands.few stands.whole enough
    rw [← all] at read
    refine ⟨after, _, ?_, read, ends⟩
    rw [PagedStuff.memRead, if_pos all, stands.length,
      pageLoop_pages stands.few stands.whole enough, rounds]
    rfl
  · have within : num.toNat < plain.pgSize.toNat := by
      rcases Bool.or_eq_true_iff.mp accepted with below | same
      · exact UInt64.lt_iff_toNat_lt.mp (of_decide_eq_true below)
      · exact absurd (eq_of_beq same) all
    obtain ⟨after, round, ends⟩ := stands.readRound within stands.region []
    have read : Proj3.memRead plain num fuel = some [plain.readAt (intOffset num.toNat)] := by
      rw [Proj3.memRead, if_neg all, intAdd_single]
    refine ⟨after, _, ?_, read, ends⟩
    rw [PagedStuff.memRead, if_neg all, intAdd_single]
    exact round

theorem memWrite (stands : StandsIn plain paged) (enough : plain.pgSize.toNat < fuel)
    {num : UInt64} (accepted : plain.accepts num = true) {msg : List UInt8}
    (short : msg.length < 4096) :
    ∃ after addr offsets, paged.memWrite num msg fuel = some after ∧
      Proj3.memWrite plain num msg fuel = some (addr, offsets) ∧
      after.StandsFor (pagesOf plain.pgSize) Zeroed (fun _ => 0) addr := by
  by_cases all : num = -1
  · obtain ⟨after, rounds, ends⟩ := stands.copies short (Nat.le_refl _)
    have written := memWrite_all stands.few stands.whole enough msg
    rw [← all] at written
    refine ⟨after, _, _, ?_, written, ends⟩
    rw [PagedStuff.memWrite, if_pos all, stands.length,
      pageLoop_pages stands.few stands.whole enough, rounds]
    rfl
  · have within : num.toNat < plain.pgSize.toNat := by
      rcases Bool.or_eq_true_iff.mp accepted with below | same
      · exact UInt64.lt_iff_toNat_lt.mp (of_decide_eq_true below)
      · exact absurd (eq_of_beq same) all
    obtain ⟨after, copied, ends⟩ := stands.copyTo within stands.region short []
    have written : Proj3.memWrite plain num msg fuel =
        some (Proj3.copyTo msg (intOffset num.toNat) (plain.addr, [])) := by
      rw [Proj3.memWrite, if_neg all, intAdd_single]
    refine ⟨after, _, _, ?_, written, ends⟩
    rw [PagedStuff.memWrite, if_neg all, intAdd_single]
    exact copied

/-- A command prints the same on both, and leaves them so. -/
theorem step (stands : StandsIn plain paged) (enough : plain.pgSize.toNat < fuel) {typed : Typed}
    (fitting : typed.Fitting) :
    ∃ next pagedNext shown, menuStep fuel plain typed = some (next, shown) ∧
      pagedMenuStep fuel paged typed = some (pagedNext, shown) ∧ StandsIn next pagedNext ∧
      next.pgSize = plain.pgSize := by
  have same : paged.accepts = plain.accepts := by
    funext access
    rw [PagedStuff.accepts, Stuff.accepts, stands.pgSize]
  cases typed with
  | read access =>
      cases accepted : plain.accepts access with
      | false =>
          refine ⟨plain, paged, [.cantRead], ?_, ?_, stands, rfl⟩
          · simp only [menuStep, accepted, Bool.false_eq_true, if_false]
          · simp only [pagedMenuStep, same, accepted, Bool.false_eq_true, if_false]
      | true =>
          obtain ⟨after, reads, pagedRead, read, ends⟩ := stands.memRead enough accepted
          refine ⟨plain, { paged with region := after }, headings access ++ reads.map .page, ?_, ?_,
            { stands with region := ends }, rfl⟩
          · simp only [menuStep, accepted, if_true, read, Option.map_some]
          · simp only [pagedMenuStep, same, accepted, if_true, pagedRead, Option.map_some]
  | write access message =>
      cases accepted : plain.accepts access with
      | false =>
          refine ⟨plain, paged, [.cantWrite], ?_, ?_, stands, rfl⟩
          · simp only [menuStep, accepted, Bool.false_eq_true, if_false]
          · simp only [pagedMenuStep, same, accepted, Bool.false_eq_true, if_false]
      | true =>
          obtain ⟨after, addr, offsets, pagedWrite, written, ends⟩ :=
            stands.memWrite enough accepted fitting
          refine ⟨{ plain with addr := addr }, { paged with region := after }, [], ?_, ?_,
            { stands with region := ends }, rfl⟩
          · simp only [menuStep, accepted, if_true, written, Option.map_some]
          · simp only [pagedMenuStep, same, accepted, if_true, pagedWrite, Option.map_some]

end StandsIn

/-- Whatever is typed, the menu whose pages come on faults takes it all and prints what the
menu on a mapping of zeros prints: no fault is refused, and no thread stays asleep. -/
theorem pagedMenu_prints {plain : Stuff} {paged : PagedStuff} (stands : StandsIn plain paged)
    {fuel : Nat} (enough : plain.pgSize.toNat < fuel) (typed : List Typed)
    (fitting : ∀ command ∈ typed, command.Fitting) :
    ∃ final pagedFinal lines, Run (menuStep fuel) always plain typed lines final ∧
      Run (pagedMenuStep fuel) always paged typed lines pagedFinal ∧ StandsIn final pagedFinal := by
  induction typed generalizing plain paged with
  | nil => exact ⟨plain, paged, [], .stop, .stop, stands⟩
  | cons command rest ih =>
      obtain ⟨next, pagedNext, shown, taken, pagedTaken, together, kept⟩ :=
        stands.step enough (fitting command List.mem_cons_self)
      obtain ⟨final, pagedFinal, lines, run, pagedRun, ends⟩ := ih together
        (by rw [kept]; exact enough)
        (fun later member => fitting later (List.mem_cons_of_mem command member))
      have first : Run (menuStep fuel) always plain [command] shown next := Run.one trivial taken
      have pagedFirst : Run (pagedMenuStep fuel) always paged [command] shown pagedNext :=
        Run.one trivial pagedTaken
      exact ⟨final, pagedFinal, shown ++ lines, first.append run, pagedFirst.append pagedRun, ends⟩

def unfilled (base : Nat) (pgSize : UInt64) : PagedStuff where
  base := base
  pgSize := pgSize
  length := pgSize * pageSize
  region := ⟨fun _ => false, fun _ => 120, fun _ => 0⟩

theorem unfilled_standsIn {base : Nat} {pgSize : UInt64} (aligned : 4096 ∣ base)
    (fits : base + pgSize.toNat * 4096 ≤ 2 ^ 64) (few : pgSize.toNat ≤ 2 ^ 19) :
    StandsIn (mapped (fun _ => 0) pgSize) (unfilled base pgSize) where
  aligned := aligned
  fits := fits
  pgSize := rfl
  length := rfl
  whole := mapped_length _ few
  few := few
  region := ⟨fun _ _ present => absurd present Bool.false_ne_true, fun _ _ _ => rfl,
    fun _ _ _ => rfl⟩

def writeThenReadAll : List Typed := [.write 1 [104, 105], .read (-1), .read 2, .read 0]

theorem pagedMenu_prints_writeThenReadAll :
    ∃ final pagedFinal lines,
      Run (menuStep 3) always (mapped (fun _ => 0) 2) writeThenReadAll lines final ∧
      Run (pagedMenuStep 3) always (unfilled 65536 2) writeThenReadAll lines pagedFinal ∧
      StandsIn final pagedFinal := by
  apply pagedMenu_prints (unfilled_standsIn (by decide) (by decide) (by decide)) (by decide)
  simp [writeThenReadAll, Typed.Fitting]

end LKP.Proj3
