import LKP.Dsm.Machine

/-
The effect of one command on one page, and of one received struct, in closed form.

Single commands and the loops over all pages reach the same page operation, with
`index`, `count` and `temp_data.page_num` naming the same page.  The receive loop
changes one entry of the MSI table, by a rule on that entry and the struct alone.
-/

set_option autoImplicit false

namespace LKP.Dsm

open CBuffer

/-- The `long` of a page with an entry in the arrays survives the conversion. -/
theorem toInt_of_page {page : Int} (lower : 0 ≤ page) (upper : page < maxSize) :
    toInt page = page := by
  change page < 4096 at upper
  rw [toInt, Int.bmod_def]
  omega

theorem Setup.toInt_inRange {setup : Setup} {page : Int} (inRange : setup.InRange page) :
    toInt page = page :=
  toInt_of_page inRange.1 inRange.2.2

theorem Setup.inRange_ne_all {setup : Setup} {page : Int} (inRange : setup.InRange page) :
    page ≠ -1 := by
  have lower := inRange.1
  omega

/-! ### The page operations -/

def readRequest (setup : Setup) (page : Int) (data : ProcInfo) : ProcInfo :=
  { data with
    pageNum := page
    accessPage := page * setup.pageSize
    readSignal := Function.update data.readSignal page 1
    pagefaultSignal := Function.update data.pagefaultSignal page 1
    invalidateSignal := Function.update data.invalidateSignal page 0 }

def writeRequest (setup : Setup) (entry : MSIList) (page : Int) (data : ProcInfo) : ProcInfo :=
  { writeSignals entry page data with pageNum := page, accessPage := page * setup.pageSize }

def Machine.afterHit (setup : Setup) (page : Int) (next : Menu) (machine : Machine) : Machine :=
  { machine with
    tempData := { machine.tempData with pageNum := page, accessPage := page * setup.pageSize }
    menu := next }

def Machine.afterMiss (setup : Setup) (page : Int) (next : Menu) (machine : Machine) : Machine :=
  { machine with
    listMSI := Function.update machine.listMSI page .shared
    tempData := readRequest setup page machine.tempData
    addr := memset machine.addr (page * setup.pageSize) 0 setup.pageSize
    menu := next }

def Machine.afterWrite (setup : Setup) (page : Int) (message : List UInt8) (next : Menu)
    (machine : Machine) : Machine :=
  { machine with
    listMSI := Function.update machine.listMSI page .modified
    tempData := writeRequest setup (machine.listMSI page) page machine.tempData
    addr := memcpy machine.addr (page * setup.pageSize) (strBytes message)
    menu := next }

section Fields

variable (setup : Setup) (page : Int) (message : List UInt8) (next : Menu) (machine : Machine)

@[simp] theorem afterHit_listMSI :
    (machine.afterHit setup page next).listMSI = machine.listMSI := rfl

@[simp] theorem afterHit_addr : (machine.afterHit setup page next).addr = machine.addr := rfl

@[simp] theorem afterHit_menu : (machine.afterHit setup page next).menu = next := rfl

@[simp] theorem afterHit_readSignal :
    (machine.afterHit setup page next).tempData.readSignal = machine.tempData.readSignal := rfl

@[simp] theorem afterMiss_listMSI :
    (machine.afterMiss setup page next).listMSI =
      Function.update machine.listMSI page .shared := rfl

@[simp] theorem afterMiss_addr :
    (machine.afterMiss setup page next).addr =
      memset machine.addr (page * setup.pageSize) 0 setup.pageSize := rfl

@[simp] theorem afterMiss_menu : (machine.afterMiss setup page next).menu = next := rfl

@[simp] theorem afterMiss_tempData :
    (machine.afterMiss setup page next).tempData =
      readRequest setup page machine.tempData := rfl

@[simp] theorem afterWrite_listMSI :
    (machine.afterWrite setup page message next).listMSI =
      Function.update machine.listMSI page .modified := rfl

@[simp] theorem afterWrite_addr :
    (machine.afterWrite setup page message next).addr =
      memcpy machine.addr (page * setup.pageSize) (strBytes message) := rfl

@[simp] theorem afterWrite_menu :
    (machine.afterWrite setup page message next).menu = next := rfl

@[simp] theorem afterWrite_tempData :
    (machine.afterWrite setup page message next).tempData =
      writeRequest setup (machine.listMSI page) page machine.tempData := rfl

variable (index : Int) (received : List UInt8)

@[simp] theorem menuReceive_listMSI :
    (menuReceive setup index next received machine).1.listMSI = machine.listMSI := rfl

@[simp] theorem menuReceive_addr :
    (menuReceive setup index next received machine).1.addr = machine.addr := rfl

@[simp] theorem menuReceive_menu :
    (menuReceive setup index next received machine).1.menu = next := rfl

@[simp] theorem menuReceive_readSignal :
    (menuReceive setup index next received machine).1.tempData.readSignal =
      Function.update machine.tempData.readSignal index 0 := rfl

end Fields

def Machine.pageText (setup : Setup) (page : Int) (machine : Machine) : List UInt8 :=
  cString machine.addr (page * setup.pageSize) (setup.rest (page * setup.pageSize))

def Machine.pageRead (setup : Setup) (page : Int) (held waiting : Menu) (machine : Machine) :
    Machine × MenuEffect :=
  if (machine.listMSI page).I = true then
    (machine.afterMiss setup page waiting, .send (readRequest setup page machine.tempData))
  else if (machine.listMSI page).S = true ∨ (machine.listMSI page).M = true then
    (machine.afterHit setup page held, .display (machine.pageText setup page))
  else (machine.afterHit setup page held, .silent)

def Machine.pageWrite (setup : Setup) (page : Int) (message : List UInt8) (next : Menu)
    (machine : Machine) : Machine × MenuEffect :=
  (machine.afterWrite setup page message next,
    .send (writeRequest setup (machine.listMSI page) page machine.tempData))

private theorem menuReadPage_eq (setup : Setup) (page : Int) (held waiting : Menu)
    (machine : Machine) :
    menuReadPage setup page held waiting
        { machine with
          tempData :=
            { machine.tempData with pageNum := page, accessPage := page * setup.pageSize } } =
      machine.pageRead setup page held waiting := by
  unfold menuReadPage Machine.pageRead
  simp only [Function.update_self, if_true]
  rfl

theorem menuRead_page (setup : Setup) {page : Int} (lower : 0 ≤ page) (upper : page < maxSize)
    (machine : Machine) :
    menuRead setup page machine = machine.pageRead setup page .prompt (.awaitReply page) := by
  have single : page ≠ -1 := by omega
  rw [← menuReadPage_eq]
  simp only [menuRead, toInt_of_page lower upper, if_neg single]

theorem menuRead_inRange {setup : Setup} {page : Int} (inRange : setup.InRange page)
    (machine : Machine) :
    menuRead setup page machine = machine.pageRead setup page .prompt (.awaitReply page) :=
  menuRead_page setup inRange.1 inRange.2.2 machine

theorem menuRead_all (setup : Setup) (machine : Machine) :
    menuRead setup (-1) machine =
      ({ machine with
          tempData := { machine.tempData with pageNum := -1 }, menu := .readAll 0 },
        .silent) := by
  have all : toInt (-1) = -1 := by decide
  simp only [menuRead, if_pos all]

theorem menuReadAll_more {setup : Setup} {count : Int} {machine : Machine}
    (more : count < machine.tempData.pageCount) :
    menuReadAll setup count machine =
      machine.pageRead setup count (.readAll (count + 1)) (.awaitReplyAll count) := by
  rw [← menuReadPage_eq]
  simp only [menuReadAll, if_pos more]

theorem menuReadAll_done {setup : Setup} {count : Int} {machine : Machine}
    (done : ¬ count < machine.tempData.pageCount) :
    menuReadAll setup count machine = ({ machine with menu := .prompt }, .silent) :=
  if_neg done

private theorem writeSignals_pageNum (entry : MSIList) (index page : Int) (data : ProcInfo) :
    writeSignals entry index { data with pageNum := page } =
      { writeSignals entry index data with pageNum := page } := by
  unfold writeSignals
  split
  · rfl
  · split <;> rfl

theorem menuWrite_page (setup : Setup) {page : Int} (lower : 0 ≤ page) (upper : page < maxSize)
    (message : List UInt8) (machine : Machine) :
    menuWrite setup page message machine = machine.pageWrite setup page message .prompt := by
  have single : page ≠ -1 := by omega
  simp only [menuWrite, menuWriteSelect, toInt_of_page lower upper, if_neg single,
    menuWriteMessage, writeSignals_pageNum]
  rfl

theorem menuWrite_inRange {setup : Setup} {page : Int} (inRange : setup.InRange page)
    (message : List UInt8) (machine : Machine) :
    menuWrite setup page message machine = machine.pageWrite setup page message .prompt :=
  menuWrite_page setup inRange.1 inRange.2.2 message machine

theorem menuWrite_all (setup : Setup) (message : List UInt8) (machine : Machine) :
    menuWrite setup (-1) message machine =
      ({ machine with
          tempData := { machine.tempData with pageNum := -1 }, menu := .writeAll 0 message },
        .silent) := by
  have all : toInt (-1) = -1 := by decide
  simp only [menuWrite, menuWriteSelect, if_pos all, menuWriteMessage]

theorem menuWriteAll_more {setup : Setup} {count : Int} {machine : Machine}
    (message : List UInt8) (more : count < machine.tempData.pageCount) :
    menuWriteAll setup count message machine =
      machine.pageWrite setup count message (.writeAll (count + 1) message) := by
  simp only [menuWriteAll, if_pos more, writeSignals_pageNum]
  rfl

theorem menuWriteAll_done {setup : Setup} {count : Int} {machine : Machine}
    (message : List UInt8) (done : ¬ count < machine.tempData.pageCount) :
    menuWriteAll setup count message machine = ({ machine with menu := .prompt }, .silent) :=
  if_neg done

/-! ### Pages do not overlap -/

theorem Setup.page_disjoint (setup : Setup) {page index offset : Int} (other : page ≠ index)
    (lower : page * setup.pageSize ≤ offset)
    (upper : offset < page * setup.pageSize + setup.pageSize) :
    offset < index * setup.pageSize ∨ index * setup.pageSize + setup.pageSize ≤ offset := by
  have size : (0 : Int) ≤ setup.pageSize := Int.natCast_nonneg _
  rcases Int.lt_or_gt_of_ne other with before | after
  · left
    have next : (page + 1) * setup.pageSize ≤ index * setup.pageSize :=
      Int.mul_le_mul_of_nonneg_right before size
    rw [Int.add_mul, Int.one_mul] at next
    omega
  · right
    have next : (index + 1) * setup.pageSize ≤ page * setup.pageSize :=
      Int.mul_le_mul_of_nonneg_right after size
    rw [Int.add_mul, Int.one_mul] at next
    omega

theorem afterMiss_addr_other (setup : Setup) {page index : Int} (other : page ≠ index)
    (next : Menu) (machine : Machine) {offset : Int}
    (lower : page * setup.pageSize ≤ offset)
    (upper : offset < page * setup.pageSize + setup.pageSize) :
    (machine.afterMiss setup index next).addr offset = machine.addr offset :=
  memset_outside _ _ _ _ (setup.page_disjoint other lower upper)

theorem afterWrite_addr_other (setup : Setup) {page index : Int} (other : page ≠ index)
    (message : List UInt8) (fits : (strBytes message).length ≤ setup.pageSize)
    (next : Menu) (machine : Machine) {offset : Int}
    (lower : page * setup.pageSize ≤ offset)
    (upper : offset < page * setup.pageSize + setup.pageSize) :
    (machine.afterWrite setup index message next).addr offset = machine.addr offset := by
  apply memcpy_outside
  have disjoint := setup.page_disjoint other lower upper
  omega

/-! ### What the requests say about a page -/

@[simp] theorem readRequest_pageNum (setup : Setup) (page : Int) (data : ProcInfo) :
    (readRequest setup page data).pageNum = page := rfl

@[simp] theorem readRequest_accessPage (setup : Setup) (page : Int) (data : ProcInfo) :
    (readRequest setup page data).accessPage = page * setup.pageSize := rfl

@[simp] theorem readRequest_pageCount (setup : Setup) (page : Int) (data : ProcInfo) :
    (readRequest setup page data).pageCount = data.pageCount := rfl

@[simp] theorem readRequest_readSignal (setup : Setup) (page : Int) (data : ProcInfo) :
    (readRequest setup page data).readSignal page = 1 := Function.update_self ..

@[simp] theorem readRequest_invalidateSignal (setup : Setup) (page : Int) (data : ProcInfo) :
    (readRequest setup page data).invalidateSignal page = 0 := Function.update_self ..

@[simp] theorem writeRequest_pageNum (setup : Setup) (entry : MSIList) (page : Int)
    (data : ProcInfo) : (writeRequest setup entry page data).pageNum = page := rfl

@[simp] theorem writeRequest_accessPage (setup : Setup) (entry : MSIList) (page : Int)
    (data : ProcInfo) :
    (writeRequest setup entry page data).accessPage = page * setup.pageSize := rfl

@[simp] theorem writeRequest_pageCount (setup : Setup) (entry : MSIList) (page : Int)
    (data : ProcInfo) : (writeRequest setup entry page data).pageCount = data.pageCount := by
  unfold writeRequest writeSignals
  split
  · rfl
  · split <;> rfl

theorem writeRequest_readSignal_off (setup : Setup) {entry : MSIList} (oneHot : entry.OneHot)
    (unowned : entry ≠ .modified) (page : Int) (data : ProcInfo) :
    (writeRequest setup entry page data).readSignal page = 0 := by
  rcases oneHot with rfl | rfl | rfl
  · exact absurd rfl unowned
  · exact Function.update_self ..
  · exact Function.update_self ..

/-- A write to a page in M sends every signal as it stands. -/
theorem writeRequest_modified (setup : Setup) (page : Int) (data : ProcInfo) :
    writeRequest setup .modified page data =
      { data with pageNum := page, accessPage := page * setup.pageSize } := rfl

theorem writeSignals_other (entry : MSIList) {index page : Int} (other : page ≠ index)
    (data : ProcInfo) :
    (writeSignals entry index data).readSignal page = data.readSignal page ∧
      (writeSignals entry index data).busRdx page = data.busRdx page ∧
      (writeSignals entry index data).busUpgr page = data.busUpgr page := by
  unfold writeSignals
  split
  · simp only [Function.update_of_ne other, and_self]
  · split <;> simp only [Function.update_of_ne other, and_self]

/-! ### The receive loop -/

/-- One of the two bus signals for the page is on: the second branch's test. -/
abbrev ProcInfo.busRequest (data : ProcInfo) (page : Int) : Prop :=
  data.busUpgr page = 1 ∨ data.busRdx page = 1

/-- The entry of the page the struct names, after the receive loop has handled it. -/
def serverEntry (entry : MSIList) (recvData : ProcInfo) : MSIList :=
  let page := recvData.pageNum
  if entry.M = true ∧ recvData.readSignal page = 1 then .shared
  else if entry.S = true ∧ recvData.busRequest page then .invalid
  else if entry.I = true ∧ recvData.readSignal page = 1 then .shared
  else if (entry.M = true ∨ entry.S = true) ∧
      (recvData.readSignal page = 0 ∨ recvData.invalidateSignal page = 1) then .invalid
  else entry

/-- The reply the receive loop sends, by the entry and the string at `access_page`. -/
def serverReply (entry : MSIList) (recvData : ProcInfo) (text : List UInt8) :
    Option (List UInt8) :=
  let page := recvData.pageNum
  if entry.M = true ∧ recvData.readSignal page = 1 then some text
  else if entry.S = true ∧ recvData.busRequest page then none
  else if entry.I = true ∧ recvData.readSignal page = 1 then some [32]
  else none

def Machine.afterServe (recvData : ProcInfo) (machine : Machine) : Machine :=
  { machine with
    tempData := recvData
    listMSI := Function.update machine.listMSI recvData.pageNum
      (serverEntry (machine.listMSI recvData.pageNum) recvData) }

section Served

variable (recvData : ProcInfo) (machine : Machine)

@[simp] theorem afterServe_tempData : (machine.afterServe recvData).tempData = recvData := rfl

@[simp] theorem afterServe_listMSI :
    (machine.afterServe recvData).listMSI =
      Function.update machine.listMSI recvData.pageNum
        (serverEntry (machine.listMSI recvData.pageNum) recvData) := rfl

@[simp] theorem afterServe_addr : (machine.afterServe recvData).addr = machine.addr := rfl

@[simp] theorem afterServe_menu : (machine.afterServe recvData).menu = machine.menu := rfl

@[simp] theorem afterServe_recvMessage :
    (machine.afterServe recvData).recvMessage = machine.recvMessage := rfl

end Served

theorem serverReceive_eq (setup : Setup) (recvData : ProcInfo) (machine : Machine) :
    serverReceive setup recvData machine =
      (machine.afterServe recvData,
        serverReply (machine.listMSI recvData.pageNum) recvData
          (cString machine.addr recvData.accessPage (setup.rest recvData.accessPage))) := by
  unfold serverReceive Machine.afterServe serverEntry serverReply
  by_cases flush : (machine.listMSI recvData.pageNum).M = true ∧
      recvData.readSignal recvData.pageNum = 1
  · simp only [if_pos flush]
  · simp only [if_neg flush]
    by_cases bus : (machine.listMSI recvData.pageNum).S = true ∧
        (recvData.busUpgr recvData.pageNum = 1 ∨ recvData.busRdx recvData.pageNum = 1)
    · simp only [if_pos bus]
    · simp only [if_neg bus]
      by_cases noData : (machine.listMSI recvData.pageNum).I = true ∧
          recvData.readSignal recvData.pageNum = 1
      · simp only [if_pos noData]
      · simp only [if_neg noData]
        split
        · rfl
        · rw [Function.update_eq_self]

theorem serverEntry_modified (recvData : ProcInfo) :
    serverEntry .modified recvData =
      if recvData.readSignal recvData.pageNum = 1 then .shared
      else if recvData.readSignal recvData.pageNum = 0 ∨
          recvData.invalidateSignal recvData.pageNum = 1 then .invalid
      else .modified := by
  simp [serverEntry, MSIList.modified]

theorem serverEntry_shared (recvData : ProcInfo) :
    serverEntry .shared recvData =
      if recvData.busRequest recvData.pageNum then .invalid
      else if recvData.readSignal recvData.pageNum = 0 ∨
          recvData.invalidateSignal recvData.pageNum = 1 then .invalid
      else .shared := by
  simp [serverEntry, MSIList.shared]

theorem serverEntry_invalid (recvData : ProcInfo) :
    serverEntry .invalid recvData =
      if recvData.readSignal recvData.pageNum = 1 then .shared else .invalid := by
  simp [serverEntry, MSIList.invalid]

theorem serverEntry_oneHot {entry : MSIList} (oneHot : entry.OneHot) (recvData : ProcInfo) :
    (serverEntry entry recvData).OneHot := by
  unfold serverEntry
  simp only []
  split
  · exact .inr (.inl rfl)
  · split
    · exact .inr (.inr rfl)
    · split
      · exact .inr (.inl rfl)
      · split
        · exact .inr (.inr rfl)
        · exact oneHot

/-- The receive loop never gives a page to its machine in M. -/
theorem serverEntry_eq_modified {entry : MSIList} (oneHot : entry.OneHot) {recvData : ProcInfo}
    (kept : serverEntry entry recvData = .modified) : entry = .modified := by
  rcases oneHot with rfl | rfl | rfl
  · rfl
  · rw [serverEntry_shared] at kept
    split at kept
    · cases kept
    · split at kept <;> cases kept
  · rw [serverEntry_invalid] at kept
    split at kept <;> cases kept

/-- With its read signal off, a struct takes the page it names to I, from every state. -/
theorem serverEntry_of_read_off {entry : MSIList} (oneHot : entry.OneHot) {recvData : ProcInfo}
    (off : recvData.readSignal recvData.pageNum = 0) :
    serverEntry entry recvData = .invalid := by
  rcases oneHot with rfl | rfl | rfl
  · simp [serverEntry_modified, off]
  · simp [serverEntry_shared, off]
  · simp [serverEntry_invalid, off]

theorem serverReply_modified (recvData : ProcInfo) (text : List UInt8) :
    serverReply .modified recvData text =
      if recvData.readSignal recvData.pageNum = 1 then some text else none := by
  simp [serverReply, MSIList.modified]

theorem serverReply_invalid (recvData : ProcInfo) (text : List UInt8) :
    serverReply .invalid recvData text =
      if recvData.readSignal recvData.pageNum = 1 then some [32] else none := by
  simp [serverReply, MSIList.invalid]

theorem serverReply_of_read_off {entry : MSIList} {recvData : ProcInfo}
    (off : recvData.readSignal recvData.pageNum ≠ 1) (text : List UInt8) :
    serverReply entry recvData text = none := by
  simp [serverReply, off]

end LKP.Dsm
