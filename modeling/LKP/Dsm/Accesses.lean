import LKP.Dsm.Network

/-
The entries and the bytes that each function of the two threads uses.

No function checks the number typed at the page prompt, the length of the message
or the page count.  The entries used are the number cut to an `int`, the number as it
stands and, on the other machine, the `page_num` that arrives; the bytes are counted
from `access_page`, which is the number times `page_size`.
-/

set_option autoImplicit false

namespace LKP.Dsm

open TransitionRun CBuffer

/-- An entry of `list_MSI` or of an array of `temp_data`, or a stretch of the region that
is cleared, copied to or flushed. -/
inductive Touched where
  | entry (index : Int)
  | bytes (offset : Int) (length : Nat)
deriving DecidableEq

/-! ### What the functions use, in the order of their statements -/

/-- `while (i < temp_data.page_count)` in `client_socket` and in `server_socket`. -/
def startUpAccesses (pageCount : Int) : List Touched :=
  (List.range pageCount.toNat).map (fun i : Nat => .entry i)

def menuReadPageAccesses (setup : Setup) (index : Int) (machine : Machine) : List Touched :=
  let data := machine.tempData
  if (machine.listMSI index).I = true then
    [.entry index, .bytes data.accessPage setup.pageSize, .entry data.pageNum]
  else [.entry index]

def menuReadAccesses (setup : Setup) (page : Int) (machine : Machine) : List Touched :=
  let index := toInt page
  if index = -1 then []
  else
    let data := { machine.tempData with pageNum := page, accessPage := page * setup.pageSize }
    menuReadPageAccesses setup index { machine with tempData := data }

def menuReadAllAccesses (setup : Setup) (count : Int) (machine : Machine) : List Touched :=
  if count < machine.tempData.pageCount then
    let data := { machine.tempData with pageNum := count, accessPage := count * setup.pageSize }
    menuReadPageAccesses setup count { machine with tempData := data }
  else []

def menuWriteSelectAccesses (page : Int) : List Touched :=
  let index := toInt page
  if index = -1 then [] else [.entry index]

def menuWriteMessageAccesses (message : List UInt8) (machine : Machine) : List Touched :=
  match machine.menu with
  | .message => [.bytes machine.tempData.accessPage (strBytes message).length]
  | _ => []

def menuWriteAllAccesses (setup : Setup) (count : Int) (message : List UInt8)
    (machine : Machine) : List Touched :=
  if count < machine.tempData.pageCount then
    [.entry count, .bytes (count * setup.pageSize) (strBytes message).length]
  else []

/-- `strlen(flush)` looks at the bytes of the string and at the NUL behind them. -/
def serverReceiveAccesses (setup : Setup) (recvData : ProcInfo) (machine : Machine) :
    List Touched :=
  if (machine.listMSI recvData.pageNum).M = true ∧ recvData.readSignal recvData.pageNum = 1 then
    [.entry recvData.pageNum,
      .bytes recvData.accessPage
        ((cString machine.addr recvData.accessPage (setup.rest recvData.accessPage)).length + 1)]
  else [.entry recvData.pageNum]

def stepAccesses (setup : Setup) (s : System) : Event → List Touched
  | .read x page => menuReadAccesses setup page (s.machine x)
  | .write x page message =>
      menuWriteSelectAccesses page ++
        menuWriteMessageAccesses message (menuWriteSelect setup page (s.machine x))
  | .select _ page => menuWriteSelectAccesses page
  | .enter x message => menuWriteMessageAccesses message (s.machine x)
  | .iterate x =>
      match (s.machine x).menu with
      | .readAll count => menuReadAllAccesses setup count (s.machine x)
      | .writeAll count message => menuWriteAllAccesses setup count message (s.machine x)
      | _ => []
  | .receive x =>
      -- `temp_data.read_signal[index] = 0`
      match (s.machine x).menu.awaiting with
      | some (index, _) => [.entry index]
      | none => []
  | .serve x =>
      match s.inbox x with
      | [] => []
      | recvData :: _ => serverReceiveAccesses setup recvData (s.machine x)

/-! ### Nothing else is changed -/

/-- The machine keeps every entry and every byte that is not in the list. -/
def Covers (used : List Touched) (before after : Machine) : Prop :=
  (∀ index, .entry index ∉ used → after.listMSI index = before.listMSI index) ∧
    ∀ offset, (∀ (start : Int) (length : Nat), .bytes start length ∈ used →
      offset < start ∨ start + length ≤ offset) → after.addr offset = before.addr offset

theorem Covers.of_same {used : List Touched} {before after : Machine}
    (table : after.listMSI = before.listMSI) (region : after.addr = before.addr) :
    Covers used before after :=
  ⟨fun index _absent => congrFun table index, fun offset _outside => congrFun region offset⟩

theorem menuReadPage_covers (setup : Setup) (index : Int) (held waiting : Menu)
    (machine : Machine) :
    Covers (menuReadPageAccesses setup index machine) machine
      (menuReadPage setup index held waiting machine).1 := by
  unfold menuReadPage menuReadPageAccesses
  simp only [Function.update_self, if_true]
  split
  · constructor
    · intro page absent
      apply Function.update_of_ne
      intro same
      exact absent (by rw [same]; simp)
    · intro offset outside
      exact memset_outside _ _ _ _ (outside _ _ (by simp))
  · split
    · exact .of_same rfl rfl
    · exact .of_same rfl rfl

theorem menuRead_covers (setup : Setup) (page : Int) (machine : Machine) :
    Covers (menuReadAccesses setup page machine) machine (menuRead setup page machine).1 := by
  unfold menuRead menuReadAccesses
  simp only []
  split
  · exact .of_same rfl rfl
  · exact menuReadPage_covers ..

theorem menuReadAll_covers (setup : Setup) (count : Int) (machine : Machine) :
    Covers (menuReadAllAccesses setup count machine) machine
      (menuReadAll setup count machine).1 := by
  unfold menuReadAll menuReadAllAccesses
  split
  · exact menuReadPage_covers ..
  · exact .of_same rfl rfl

theorem menuWriteSelect_covers (setup : Setup) (page : Int) (machine : Machine) :
    Covers (menuWriteSelectAccesses page) machine (menuWriteSelect setup page machine) := by
  unfold menuWriteSelect menuWriteSelectAccesses
  simp only []
  split
  · exact .of_same rfl rfl
  · refine ⟨?_, fun offset _outside => rfl⟩
    intro index absent
    apply Function.update_of_ne
    intro same
    exact absent (by rw [same]; simp)

theorem menuWriteMessage_covers (message : List UInt8) (machine : Machine) :
    Covers (menuWriteMessageAccesses message machine) machine
      (menuWriteMessage message machine).1 := by
  cases place : machine.menu with
  | message =>
      simp only [menuWriteMessage, menuWriteMessageAccesses, place]
      refine ⟨fun index _absent => rfl, ?_⟩
      intro offset outside
      exact memcpy_outside _ _ _ (outside _ _ (by simp))
  | messageAll =>
      simp only [menuWriteMessage, place]
      exact .of_same rfl rfl
  | _ =>
      simp only [menuWriteMessage, place]
      exact .of_same rfl rfl

theorem menuWriteAll_covers (setup : Setup) (count : Int) (message : List UInt8)
    (machine : Machine) :
    Covers (menuWriteAllAccesses setup count message machine) machine
      (menuWriteAll setup count message machine).1 := by
  by_cases more : count < machine.tempData.pageCount
  · rw [menuWriteAll_more message more, menuWriteAllAccesses, if_pos more]
    constructor
    · intro index absent
      apply Function.update_of_ne
      intro same
      exact absent (by rw [same]; simp)
    · intro offset outside
      exact memcpy_outside _ _ _ (outside _ _ (by simp))
  · rw [menuWriteAll_done message more]
    exact .of_same rfl rfl

theorem afterServe_covers (setup : Setup) (recvData : ProcInfo) (machine : Machine) :
    Covers (serverReceiveAccesses setup recvData machine) machine
      (machine.afterServe recvData) := by
  refine ⟨?_, fun offset _outside => rfl⟩
  intro index absent
  apply Function.update_of_ne
  intro same
  apply absent
  unfold serverReceiveAccesses
  rw [same]
  split
  · exact List.mem_cons_self
  · exact List.mem_cons_self

theorem Covers.append {first second : List Touched} {before middle after : Machine}
    (one : Covers first before middle) (two : Covers second middle after) :
    Covers (first ++ second) before after := by
  constructor
  · intro index absent
    rw [two.1 index (fun member => absent (List.mem_append_right _ member)),
      one.1 index (fun member => absent (List.mem_append_left _ member))]
  · intro offset outside
    rw [two.2 offset (fun start length member =>
        outside start length (List.mem_append_right _ member)),
      one.2 offset (fun start length member =>
        outside start length (List.mem_append_left _ member))]

theorem Covers.apply {s : System} {x : Host} {used : List Touched} {before : Machine}
    {result : Machine × MenuEffect} (covers : Covers used before result.1) :
    Covers used before ((s.apply x result).1.machine x) := by
  rw [System.apply_machine_self]
  exact covers

/-- Of its own machine a step changes the entries and bytes it uses at most. -/
theorem step_covers {setup : Setup} {s after : System} {event : Event} {shown : List Output}
    (accepted : step setup s event = some (after, shown)) :
    Covers (stepAccesses setup s event) (s.machine event.host) (after.machine event.host) := by
  cases Performs.of_step accepted with
  | read x page _ready => exact (menuRead_covers setup page _).apply
  | write x page message _ready =>
      have selected := menuWriteSelect_covers setup page (s.machine x)
      have copied := menuWriteMessage_covers message (menuWriteSelect setup page (s.machine x))
      have whole : Covers _ (s.machine x) (menuWrite setup page message (s.machine x)).1 :=
        selected.append copied
      exact whole.apply
  | select x page _ready =>
      have selected : Covers _ (s.machine x)
          ((menuWriteSelect setup page (s.machine x), .silent) : Machine × MenuEffect).1 :=
        menuWriteSelect_covers setup page (s.machine x)
      exact selected.apply
  | enter x message _place => exact (menuWriteMessage_covers message _).apply
  | readAll x count place =>
      simp only [stepAccesses, place]
      exact (menuReadAll_covers setup count _).apply
  | writeAll x count message place =>
      simp only [stepAccesses, place]
      exact (menuWriteAll_covers setup count message _).apply
  | receive x index next _waiting _available =>
      have same : Covers (stepAccesses setup s (.receive x)) (s.machine x)
          (menuReceive setup index next ((s.replies x).take setup.pageSize) (s.machine x)).1 :=
        .of_same rfl rfl
      exact same.apply
  | serve x recvData rest oldest =>
      simp only [stepAccesses, oldest]
      change Covers _ _ ((s.serve setup x recvData rest).1.machine x)
      rw [System.serve_machine_self]
      exact afterServe_covers setup recvData _

end LKP.Dsm
