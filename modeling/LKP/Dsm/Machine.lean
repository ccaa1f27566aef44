import LKP.Library.CBuffer

/-
One machine of the two-machine shared memory: its MSI table, its working copy
`temp_data` of the struct that is sent whole, its copy of the region, and the
two threads that change them, `menu` and the receive loop of `server_socket`.

The C arrays are total functions on integer indices.  The steps do not ask whether an
index is below `MAX_SIZE`; the results that need the end of the tables do, by `InRange` or
by a bound on the page count, and `LKP.Dsm.OneState` says what lies behind it.  `flush`,
the one array of the struct that nothing reads, is left out.  A `long` or an `int` is an
integer; the one conversion that matters, `index = temp_data.page_num`, is kept.
-/

set_option autoImplicit false

namespace LKP.Dsm

open CBuffer

def maxSize : Int := 4096

structure MSIList where
  M : Bool
  S : Bool
  I : Bool
deriving DecidableEq

namespace MSIList

def modified : MSIList := ⟨true, false, false⟩
def shared : MSIList := ⟨false, true, false⟩
def invalid : MSIList := ⟨false, false, true⟩

def OneHot (entry : MSIList) : Prop := entry = modified ∨ entry = shared ∨ entry = invalid

end MSIList

structure ProcInfo where
  addr : Int
  pageNum : Int
  pageCount : Int
  readSignal : Int → Int
  pagefaultSignal : Int → Int
  busRdx : Int → Int
  invalidateSignal : Int → Int
  busUpgr : Int → Int
  accessPage : Int

structure Setup where
  pageSize : Nat
  pageSize_pos : 0 < pageSize
  pageCount : Int

def Setup.rest (setup : Setup) (offset : Int) : Nat :=
  (setup.pageCount * setup.pageSize - offset).toNat

/-- The pages a command may name: they are mapped and the arrays have an entry for them. -/
def Setup.InRange (setup : Setup) (page : Int) : Prop :=
  0 ≤ page ∧ page < setup.pageCount ∧ page < maxSize

instance (setup : Setup) (page : Int) : Decidable (setup.InRange page) :=
  inferInstanceAs (Decidable (_ ∧ _ ∧ _))

/-- Where the menu thread stands: at the command prompt, at the message prompt of
a `w`, blocked in `read(client_fd, ..)`, or at the head of one of its two loops. -/
inductive Menu where
  | prompt
  | message
  | messageAll
  | awaitReply (index : Int)
  | readAll (count : Int)
  | awaitReplyAll (count : Int)
  | writeAll (count : Int) (message : List UInt8)
deriving DecidableEq

structure Machine where
  listMSI : Int → MSIList
  tempData : ProcInfo
  addr : Buffer
  recvMessage : Buffer
  menu : Menu

inductive MenuEffect where
  | silent
  | send (data : ProcInfo)
  | display (text : List UInt8)

def toInt (number : Int) : Int := number.bmod (2 ^ 32)

/-! ### The read command -/

/-- `menu`, one page of an `r` up to the blocking read, for a page that is already in
`tempData.pageNum` and `tempData.accessPage`.  Both paths of the command run these
statements, with `index` on one and `count` on the other; they differ in where the
menu goes on (`held` after a hit, `waiting` after a miss). -/
def menuReadPage (setup : Setup) (index : Int) (held waiting : Menu) (machine : Machine) :
    Machine × MenuEffect :=
  let data := machine.tempData
  if (machine.listMSI index).I = true then
    let addr := memset machine.addr data.accessPage 0 setup.pageSize
    let data := { data with
      readSignal := Function.update data.readSignal index 1
      pagefaultSignal := Function.update data.pagefaultSignal index 1
      invalidateSignal := Function.update data.invalidateSignal index 0 }
    let listMSI :=
      if data.readSignal index = 1 then
        Function.update machine.listMSI data.pageNum .shared
      else machine.listMSI
    ({ machine with listMSI := listMSI, tempData := data, addr := addr, menu := waiting },
      .send data)
  else if (machine.listMSI index).S = true ∨ (machine.listMSI index).M = true then
    ({ machine with menu := held },
      .display (cString machine.addr data.accessPage (setup.rest data.accessPage)))
  else ({ machine with menu := held }, .silent)

def menuRead (setup : Setup) (page : Int) (machine : Machine) : Machine × MenuEffect :=
  let machine := { machine with tempData := { machine.tempData with pageNum := page } }
  let index := toInt page
  if index = -1 then ({ machine with menu := .readAll 0 }, .silent)
  else
    let data := { machine.tempData with
      accessPage := machine.tempData.pageNum * setup.pageSize }
    menuReadPage setup index .prompt (.awaitReply index) { machine with tempData := data }

def menuReadAll (setup : Setup) (count : Int) (machine : Machine) : Machine × MenuEffect :=
  if count < machine.tempData.pageCount then
    let data := { machine.tempData with pageNum := count, accessPage := count * setup.pageSize }
    menuReadPage setup count (.readAll (count + 1)) (.awaitReplyAll count)
      { machine with tempData := data }
  else ({ machine with menu := .prompt }, .silent)

/-- `menu`, the return of `read(client_fd, recv_message, page_size)` after a miss. -/
def menuReceive (setup : Setup) (index : Int) (next : Menu) (received : List UInt8)
    (machine : Machine) : Machine × MenuEffect :=
  let recvMessage := memcpy machine.recvMessage 0 received
  let data := { machine.tempData with
    readSignal := Function.update machine.tempData.readSignal index 0 }
  ({ machine with tempData := data, recvMessage := recvMessage, menu := next },
    .display (cString recvMessage 0 setup.pageSize))

/-! ### The write command -/

/-- The signals a `w` sets, by the state the page is in; the same on both paths. -/
def writeSignals (entry : MSIList) (index : Int) (data : ProcInfo) : ProcInfo :=
  if entry.I = true then
    { data with
      pagefaultSignal := Function.update data.pagefaultSignal index 1
      busRdx := Function.update data.busRdx index 1
      invalidateSignal := Function.update data.invalidateSignal index 1
      readSignal := Function.update data.readSignal index 0 }
  else if entry.S = true then
    { data with
      busUpgr := Function.update data.busUpgr index 1
      invalidateSignal := Function.update data.invalidateSignal index 1
      readSignal := Function.update data.readSignal index 0 }
  else data

/-- `menu`, command `w` from the page prompt to the message prompt. -/
def menuWriteSelect (setup : Setup) (page : Int) (machine : Machine) : Machine :=
  let data := { machine.tempData with pageNum := page }
  let index := toInt page
  if index = -1 then { machine with tempData := data, menu := .messageAll }
  else
    let data := writeSignals (machine.listMSI index) index data
    { machine with
      listMSI := Function.update machine.listMSI index .modified
      tempData := { data with accessPage := data.pageNum * setup.pageSize }
      menu := .message }

/-- `menu`, command `w` after the message prompt; `message` is what the message buffer
holds then, of which `strlen(message)` bytes are copied. -/
def menuWriteMessage (message : List UInt8) (machine : Machine) : Machine × MenuEffect :=
  match machine.menu with
  | .message =>
      ({ machine with
          addr := memcpy machine.addr machine.tempData.accessPage (strBytes message)
          menu := .prompt },
        .send machine.tempData)
  | .messageAll => ({ machine with menu := .writeAll 0 message }, .silent)
  | _ => (machine, .silent)

/-- Command `w` with nothing between its two prompts. -/
def menuWrite (setup : Setup) (page : Int) (message : List UInt8) (machine : Machine) :
    Machine × MenuEffect :=
  menuWriteMessage message (menuWriteSelect setup page machine)

def menuWriteAll (setup : Setup) (count : Int) (message : List UInt8) (machine : Machine) :
    Machine × MenuEffect :=
  if count < machine.tempData.pageCount then
    let data := { machine.tempData with pageNum := count }
    let data := writeSignals (machine.listMSI count) count data
    let data := { data with accessPage := data.pageNum * setup.pageSize }
    ({ machine with
        listMSI := Function.update machine.listMSI count .modified
        tempData := data
        addr := memcpy machine.addr data.accessPage (strBytes message)
        menu := .writeAll (count + 1) message },
      .send data)
  else ({ machine with menu := .prompt }, .silent)

/-! ### The receive loop of the server -/

/-- `server_socket`, the body of its loop for one received struct: the machine
afterwards, and the bytes it passes to `send(new_socket, ..)` if it replies. -/
def serverReceive (setup : Setup) (recvData : ProcInfo) (machine : Machine) :
    Machine × Option (List UInt8) :=
  let machine := { machine with tempData := recvData }
  let page := recvData.pageNum
  let entry := machine.listMSI page
  if entry.M = true ∧ recvData.readSignal page = 1 then
    let offset := machine.tempData.accessPage
    ({ machine with listMSI := Function.update machine.listMSI page .shared },
      some (cString machine.addr offset (setup.rest offset)))
  else if entry.S = true ∧ (recvData.busUpgr page = 1 ∨ recvData.busRdx page = 1) then
    ({ machine with listMSI := Function.update machine.listMSI page .invalid }, none)
  else if entry.I = true ∧ recvData.readSignal page = 1 then
    -- `char* no_data = " "`
    ({ machine with listMSI := Function.update machine.listMSI page .shared }, some [32])
  else if (entry.M = true ∨ entry.S = true) ∧
      (recvData.readSignal page = 0 ∨ recvData.invalidateSignal page = 1) then
    ({ machine with listMSI := Function.update machine.listMSI page .invalid }, none)
  else (machine, none)

end LKP.Dsm
