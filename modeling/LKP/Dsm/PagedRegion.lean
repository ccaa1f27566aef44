import LKP.Library.DemandPaging
import LKP.Dsm.FaultHandler
import LKP.Dsm.ShortMessages

/-
The region as it really is: pages that `fault_handler_thread` installs when the menu or the
receive loop first accesses them.

The handler copies a page of zeros.  Its destination is made with the page count in the
place of the page size; the kernel reports the start of the page of a fault, and with the
page counts that the tables admit the line leaves such an address as it is.
-/

set_option autoImplicit false

namespace LKP.Dsm

open TransitionRun CBuffer DemandPaging AddressMask

/-! ### The handler at the starts of pages -/

section Aligned

variable {base : Nat} {pageCount address : BitVec 64}

end Aligned

/-- `fault_handler_thread`, one round on a fault in the page at `offset`.  The page that is
copied is fresh from `mmap`, and is only ever cleared. -/
def faultHandlerThread (setup : Setup) (base : Nat) (tempData : ProcInfo) : Pager Buffer :=
  fun page offset =>
    let page :=
      if tempData.pagefaultSignal tempData.pageNum = 1 then memset page 0 0 setup.pageSize
      else page
    let address := BitVec.ofInt 64 (base + offset)
    let destination := faultDestination (BitVec.ofInt 64 tempData.pageCount) address
    ((destination.toNat : Int) - base, page, page)

def Setup.layout (setup : Setup) : Layout where
  size := setup.pageSize
  positive := setup.pageSize_pos
  pages := setup.pageCount

/-- The region lies at a page boundary of the address space, and the tables have an entry
for each of its pages. -/
structure Setup.MappedAt (setup : Setup) (base : Nat) : Prop where
  pageSize : setup.pageSize = 4096
  aligned : 4096 ∣ base
  fits : base + setup.pageCount.toNat * 4096 ≤ 2 ^ 64
  entries : setup.pageCount ≤ maxSize

def BlankPage (setup : Setup) (page : Buffer) : Prop :=
  ∀ offset : Int, 0 ≤ offset → offset < setup.pageSize → page offset = 0

/-- Whatever the signals say, every fault is answered with a page of zeros in its place. -/
theorem faultHandlerThread_provides {setup : Setup} {base : Nat} (mapped : setup.MappedAt base)
    {tempData : ProcInfo} (counted : tempData.pageCount = setup.pageCount) :
    (faultHandlerThread setup base tempData).Provides setup.layout (BlankPage setup)
      (fun _ => 0) where
  placed := by
    intro control page _blank lower upper
    have within : page < setup.pageCount := upper
    have small : setup.pageCount ≤ 4096 := mapped.entries
    obtain ⟨first, start⟩ := mapped.aligned
    have fits := mapped.fits
    have whole : setup.layout.start page = page * 4096 := by
      rw [Layout.start]
      exact congrArg (fun size : Nat => page * (size : Int)) mapped.pageSize
    have address : (BitVec.ofInt 64 ((base : Int) + page * 4096)).toNat =
        base + page.toNat * 4096 := by
      rw [BitVec.toNat_ofInt]
      omega
    have count : (BitVec.ofInt 64 setup.pageCount).toNat = setup.pageCount.toNat := by
      rw [BitVec.toNat_ofInt]
      omega
    have aligned : 4096 ∣ (BitVec.ofInt 64 ((base : Int) + page * 4096)).toNat := by
      rw [address]
      exact ⟨first + page.toNat, by omega⟩
    have low : (BitVec.ofInt 64 setup.pageCount - 1).toNat < 2 ^ 12 := by
      rw [predecessor_toNat (by omega)]
      omega
    have kept := cleared_of_multiple low aligned
    simp only [faultHandlerThread, counted, whole, faultDestination, pagefaultAddress]
    rw [kept, address]
    omega
  filled := by
    intro control page offset blank _lower _upper first last
    simp only [faultHandlerThread]
    split
    · exact memset_inside _ _ _ _ first (by rw [Int.zero_add]; exact last)
    · exact blank offset first last
  kept := by
    intro control page blank _lower _upper offset first last
    simp only [faultHandlerThread]
    split
    · exact memset_inside _ _ _ _ first (by rw [Int.zero_add]; exact last)
    · exact blank offset first last

/-! ### What the functions access -/

structure Accessing where
  tempData : ProcInfo
  uses : List Use

def menuReadPageUses (setup : Setup) (index : Int) (machine : Machine) : Accessing :=
  let data := machine.tempData
  if (machine.listMSI index).I = true then ⟨data, [.bytes data.accessPage setup.pageSize]⟩
  else if (machine.listMSI index).S = true ∨ (machine.listMSI index).M = true then
    ⟨data, [.text data.accessPage (setup.rest data.accessPage)]⟩
  else ⟨data, []⟩

def menuReadUses (setup : Setup) (page : Int) (machine : Machine) : Accessing :=
  let machine := { machine with tempData := { machine.tempData with pageNum := page } }
  let index := toInt page
  if index = -1 then ⟨machine.tempData, []⟩
  else
    let data := { machine.tempData with
      accessPage := machine.tempData.pageNum * setup.pageSize }
    menuReadPageUses setup index { machine with tempData := data }

def menuReadAllUses (setup : Setup) (count : Int) (machine : Machine) : Accessing :=
  if count < machine.tempData.pageCount then
    let data := { machine.tempData with pageNum := count, accessPage := count * setup.pageSize }
    menuReadPageUses setup count { machine with tempData := data }
  else ⟨machine.tempData, []⟩

/-- The single `w` prints its page after the copy: the message and what follows it. -/
def menuWriteMessageUses (setup : Setup) (message : List UInt8) (machine : Machine) :
    Accessing :=
  let data := machine.tempData
  match machine.menu with
  | .message =>
      let behind := data.accessPage + (strBytes message).length
      ⟨data, [.bytes data.accessPage (strBytes message).length, .text behind (setup.rest behind)]⟩
  | _ => ⟨data, []⟩

def menuWriteAllUses (setup : Setup) (count : Int) (message : List UInt8) (machine : Machine) :
    Accessing :=
  if count < machine.tempData.pageCount then
    let data := writeSignals (machine.listMSI count) count
      { machine.tempData with pageNum := count }
    let data := { data with accessPage := data.pageNum * setup.pageSize }
    ⟨data, [.bytes data.accessPage (strBytes message).length]⟩
  else ⟨machine.tempData, []⟩

def serverReceiveUses (setup : Setup) (recvData : ProcInfo) (machine : Machine) : Accessing :=
  if (machine.listMSI recvData.pageNum).M = true ∧ recvData.readSignal recvData.pageNum = 1 then
    ⟨recvData, [.text recvData.accessPage (setup.rest recvData.accessPage)]⟩
  else ⟨recvData, []⟩

def stepUses (setup : Setup) (s : System) : Event → Accessing
  | .read x page => menuReadUses setup page (s.machine x)
  | .write x page message =>
      menuWriteMessageUses setup message (menuWriteSelect setup page (s.machine x))
  | .select x _ => ⟨(s.machine x).tempData, []⟩
  | .enter x message => menuWriteMessageUses setup message (s.machine x)
  | .iterate x =>
      match (s.machine x).menu with
      | .readAll count => menuReadAllUses setup count (s.machine x)
      | .writeAll count message => menuWriteAllUses setup count message (s.machine x)
      | _ => ⟨(s.machine x).tempData, []⟩
  | .receive x => ⟨(s.machine x).tempData, []⟩
  | .serve x =>
      match s.inbox x with
      | [] => ⟨(s.machine x).tempData, []⟩
      | recvData :: _ => serverReceiveUses setup recvData (s.machine x)

end LKP.Dsm
