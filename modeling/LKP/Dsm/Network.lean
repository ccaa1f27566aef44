import LKP.Library.TransitionRun
import LKP.Dsm.PageCommand

/-
The two machines and the two connections between them, as a step function.

Each menu sends its structs on a connection of its own, which the peer's server
reads; the peer's replies come back on the same connection.  Both directions are
reliable and in order.  A struct arrives whole, and the bytes of a reply are a
stream from which `read` takes at most a page.
-/

set_option autoImplicit false

namespace LKP.Dsm

open TransitionRun CBuffer

inductive Host where
  | one
  | two
deriving DecidableEq

def Host.peer : Host → Host
  | .one => .two
  | .two => .one

@[simp] theorem Host.peer_peer (x : Host) : x.peer.peer = x := by cases x <;> rfl

@[simp] theorem Host.peer_ne (x : Host) : x.peer ≠ x := by cases x <;> decide

@[simp] theorem Host.ne_peer (x : Host) : x ≠ x.peer := by cases x <;> decide

theorem Host.eq_or_eq_peer (x z : Host) : z = x ∨ z = x.peer := by
  cases x <;> cases z <;> decide

/-- `inbox x` holds the structs in flight to the server of `x`, oldest first, and
`replies x` the reply bytes its menu has not read. -/
structure System where
  machine : Host → Machine
  inbox : Host → List ProcInfo
  replies : Host → List UInt8

inductive Event where
  | read (x : Host) (page : Int)
  | write (x : Host) (page : Int) (message : List UInt8)
  | select (x : Host) (page : Int)
  | enter (x : Host) (message : List UInt8)
  | iterate (x : Host)
  | receive (x : Host)
  | serve (x : Host)
deriving DecidableEq

inductive Output where
  | sent (x : Host) (data : ProcInfo)
  | replied (reader : Host) (page : Int) (text : List UInt8)
  | displayed (x : Host) (text : List UInt8)

def System.put (s : System) (x : Host) (machine : Machine) : System :=
  { s with machine := Function.update s.machine x machine }

/-- `send(client_fd, &temp_data, sizeof(proc_info), 0)` by the menu of `x`. -/
def System.post (s : System) (x : Host) (data : ProcInfo) : System :=
  { s with inbox := Function.update s.inbox x.peer (s.inbox x.peer ++ [data]) }

def System.unread (s : System) (x : Host) (left : List UInt8) : System :=
  { s with replies := Function.update s.replies x left }

def System.apply (s : System) (x : Host) : Machine × MenuEffect → System × List Output
  | (machine, .silent) => (s.put x machine, [])
  | (machine, .send data) => ((s.put x machine).post x data, [.sent x data])
  | (machine, .display text) => (s.put x machine, [.displayed x text])

def Menu.awaiting : Menu → Option (Int × Menu)
  | .awaitReply index => some (index, .prompt)
  | .awaitReplyAll count => some (count, .readAll (count + 1))
  | _ => none

def System.serve (setup : Setup) (s : System) (x : Host) (recvData : ProcInfo)
    (rest : List ProcInfo) : System × List Output :=
  let served := serverReceive setup recvData (s.machine x)
  let s := { s.put x served.1 with inbox := Function.update s.inbox x rest }
  match served.2 with
  | none => (s, [])
  | some text =>
      -- `send(new_socket, ..)`: the bytes go back to the menu the struct came from
      ({ s with
          replies := Function.update s.replies x.peer (s.replies x.peer ++ text) },
        [.replied x.peer recvData.pageNum text])

def step (setup : Setup) : StepFunction System Event Output
  | s, .read x page =>
      if (s.machine x).menu = .prompt then
        some (s.apply x (menuRead setup page (s.machine x)))
      else none
  | s, .write x page message =>
      if (s.machine x).menu = .prompt then
        some (s.apply x (menuWrite setup page message (s.machine x)))
      else none
  | s, .select x page =>
      if (s.machine x).menu = .prompt then
        some (s.apply x (menuWriteSelect setup page (s.machine x), .silent))
      else none
  | s, .enter x message =>
      if (s.machine x).menu = .message ∨ (s.machine x).menu = .messageAll then
        some (s.apply x (menuWriteMessage message (s.machine x)))
      else none
  | s, .iterate x =>
      match (s.machine x).menu with
      | .readAll count => some (s.apply x (menuReadAll setup count (s.machine x)))
      | .writeAll count message =>
          some (s.apply x (menuWriteAll setup count message (s.machine x)))
      | _ => none
  | s, .receive x =>
      match (s.machine x).menu.awaiting with
      | none => none
      | some (index, next) =>
          if s.replies x = [] then none
          else
            let received := (s.replies x).take setup.pageSize
            let left := (s.replies x).drop setup.pageSize
            some ((s.unread x left).apply x
              (menuReceive setup index next received (s.machine x)))
  | s, .serve x =>
      match s.inbox x with
      | [] => none
      | recvData :: rest => some (s.serve setup x recvData rest)

/-- All pages are in I, nothing is in flight and both menus are at their prompts.  The
signal arrays and the receive buffers hold anything: machine 2 starts from an
uninitialised `send_data`, and `recv_message` comes from `malloc`. -/
structure Cold (setup : Setup) (s : System) : Prop where
  invalid : ∀ x page, setup.InRange page → (s.machine x).listMSI page = .invalid
  counted : ∀ x, (s.machine x).tempData.pageCount = setup.pageCount
  prompt : ∀ x, (s.machine x).menu = .prompt
  inboxEmpty : ∀ x, s.inbox x = []
  repliesEmpty : ∀ x, s.replies x = []

structure Initial (setup : Setup) (s : System) : Prop extends Cold setup s where
  zero : ∀ x offset, (s.machine x).addr offset = 0

/-- A start in which the uninitialised bytes happen to be zero. -/
def freshMachine (setup : Setup) : Machine where
  listMSI page := if setup.InRange page then .invalid else ⟨false, false, false⟩
  tempData :=
    { addr := 0
      pageNum := 0
      pageCount := setup.pageCount
      readSignal := fun _ => 0
      pagefaultSignal := fun _ => 0
      busRdx := fun _ => 0
      invalidateSignal := fun _ => 0
      busUpgr := fun _ => 0
      accessPage := 0 }
  addr := fun _ => 0
  recvMessage := fun _ => 0
  menu := .prompt

def freshSystem (setup : Setup) : System where
  machine := fun _ => freshMachine setup
  inbox := fun _ => []
  replies := fun _ => []

theorem freshSystem_initial (setup : Setup) : Initial setup (freshSystem setup) where
  invalid := fun _ _ inRange => if_pos inRange
  zero := fun _ _ => rfl
  counted := fun _ => rfl
  prompt := fun _ => rfl
  inboxEmpty := fun _ => rfl
  repliesEmpty := fun _ => rfl

def Drained (s : System) : Prop := ∀ x, s.inbox x = []

/-! ### What a step does -/

/-- The function that an event runs, and where its thread stood before. -/
inductive Performs (setup : Setup) (s : System) : Event → System → List Output → Prop
  | read (x : Host) (page : Int) (ready : (s.machine x).menu = .prompt) :
      Performs setup s (.read x page) (s.apply x (menuRead setup page (s.machine x))).1
        (s.apply x (menuRead setup page (s.machine x))).2
  | write (x : Host) (page : Int) (message : List UInt8)
      (ready : (s.machine x).menu = .prompt) :
      Performs setup s (.write x page message)
        (s.apply x (menuWrite setup page message (s.machine x))).1
        (s.apply x (menuWrite setup page message (s.machine x))).2
  | select (x : Host) (page : Int) (ready : (s.machine x).menu = .prompt) :
      Performs setup s (.select x page)
        (s.apply x (menuWriteSelect setup page (s.machine x), .silent)).1 []
  | enter (x : Host) (message : List UInt8)
      (place : (s.machine x).menu = .message ∨ (s.machine x).menu = .messageAll) :
      Performs setup s (.enter x message)
        (s.apply x (menuWriteMessage message (s.machine x))).1
        (s.apply x (menuWriteMessage message (s.machine x))).2
  | readAll (x : Host) (count : Int) (place : (s.machine x).menu = .readAll count) :
      Performs setup s (.iterate x) (s.apply x (menuReadAll setup count (s.machine x))).1
        (s.apply x (menuReadAll setup count (s.machine x))).2
  | writeAll (x : Host) (count : Int) (message : List UInt8)
      (place : (s.machine x).menu = .writeAll count message) :
      Performs setup s (.iterate x)
        (s.apply x (menuWriteAll setup count message (s.machine x))).1
        (s.apply x (menuWriteAll setup count message (s.machine x))).2
  | receive (x : Host) (index : Int) (next : Menu)
      (waiting : (s.machine x).menu.awaiting = some (index, next))
      (available : s.replies x ≠ []) :
      Performs setup s (.receive x)
        ((s.unread x ((s.replies x).drop setup.pageSize)).apply x
          (menuReceive setup index next ((s.replies x).take setup.pageSize) (s.machine x))).1
        ((s.unread x ((s.replies x).drop setup.pageSize)).apply x
          (menuReceive setup index next ((s.replies x).take setup.pageSize) (s.machine x))).2
  | serve (x : Host) (recvData : ProcInfo) (rest : List ProcInfo)
      (oldest : s.inbox x = recvData :: rest) :
      Performs setup s (.serve x) (s.serve setup x recvData rest).1
        (s.serve setup x recvData rest).2

theorem Performs.of_result {setup : Setup} {s : System} {event : Event}
    {result : System × List Output} (accepted : step setup s event = some result) :
    Performs setup s event result.1 result.2 := by
  cases event with
  | read x page =>
      simp only [step] at accepted
      split at accepted
      · rename_i ready
        cases accepted
        exact .read x page ready
      · cases accepted
  | write x page message =>
      simp only [step] at accepted
      split at accepted
      · rename_i ready
        cases accepted
        exact .write x page message ready
      · cases accepted
  | select x page =>
      simp only [step] at accepted
      split at accepted
      · rename_i ready
        cases accepted
        exact .select x page ready
      · cases accepted
  | enter x message =>
      simp only [step] at accepted
      split at accepted
      · rename_i place
        cases accepted
        exact .enter x message place
      · cases accepted
  | iterate x =>
      simp only [step] at accepted
      split at accepted
      · rename_i count place
        cases accepted
        exact .readAll x count place
      · rename_i count message place
        cases accepted
        exact .writeAll x count message place
      · cases accepted
  | receive x =>
      simp only [step] at accepted
      split at accepted
      · cases accepted
      · rename_i index next waiting
        split at accepted
        · cases accepted
        · rename_i available
          cases accepted
          exact .receive x index next waiting available
  | serve x =>
      simp only [step] at accepted
      split at accepted
      · cases accepted
      · rename_i recvData rest oldest
        cases accepted
        exact .serve x recvData rest oldest

theorem Performs.of_step {setup : Setup} {s after : System} {event : Event}
    {shown : List Output} (accepted : step setup s event = some (after, shown)) :
    Performs setup s event after shown := Performs.of_result accepted

/-! ### Runs of single commands -/

/-- The commands of interleaved runs: `r` or `w` on one page that exists, the return
of a blocked read, and the receive loops. -/
def Event.Single (setup : Setup) : Event → Prop
  | .read _ page => setup.InRange page
  | .write _ page _ => setup.InRange page
  | .receive _ => True
  | .serve _ => True
  | _ => False

instance (setup : Setup) (event : Event) : Decidable (event.Single setup) :=
  match event with
  | .read _ page | .write _ page _ => inferInstanceAs (Decidable (setup.InRange page))
  | .receive _ | .serve _ => inferInstanceAs (Decidable True)
  | .select _ _ | .enter _ _ | .iterate _ => inferInstanceAs (Decidable False)

abbrev Interleaved (setup : Setup) :=
  Run (step setup) (fun _ event => event.Single setup)

inductive Move (setup : Setup) (s : System) : Event → System → List Output → Prop
  | hit (x : Host) (page : Int) (shown : List Output)
      (ready : (s.machine x).menu = .prompt) (inRange : setup.InRange page)
      (held : (s.machine x).listMSI page ≠ .invalid)
      (noReply : ∀ reader answered text, Output.replied reader answered text ∉ shown) :
      Move setup s (.read x page)
        (s.put x ((s.machine x).afterHit setup page .prompt)) shown
  | miss (x : Host) (page : Int)
      (ready : (s.machine x).menu = .prompt) (inRange : setup.InRange page)
      (absent : ((s.machine x).listMSI page).I = true) :
      Move setup s (.read x page)
        ((s.put x ((s.machine x).afterMiss setup page (.awaitReply page))).post x
          (readRequest setup page (s.machine x).tempData))
        [.sent x (readRequest setup page (s.machine x).tempData)]
  | write (x : Host) (page : Int) (message : List UInt8)
      (ready : (s.machine x).menu = .prompt) (inRange : setup.InRange page) :
      Move setup s (.write x page message)
        ((s.put x ((s.machine x).afterWrite setup page message .prompt)).post x
          (writeRequest setup ((s.machine x).listMSI page) page (s.machine x).tempData))
        [.sent x (writeRequest setup ((s.machine x).listMSI page) page
          (s.machine x).tempData)]
  | receive (x : Host) (index : Int) (next : Menu) (text : List UInt8)
      (waiting : (s.machine x).menu.awaiting = some (index, next))
      (available : s.replies x ≠ []) :
      Move setup s (.receive x)
        ((s.unread x ((s.replies x).drop setup.pageSize)).put x
          (menuReceive setup index next ((s.replies x).take setup.pageSize) (s.machine x)).1)
        [.displayed x text]
  | serve (x : Host) (recvData : ProcInfo) (rest : List ProcInfo)
      (oldest : s.inbox x = recvData :: rest) :
      Move setup s (.serve x) (s.serve setup x recvData rest).1
        (s.serve setup x recvData rest).2

theorem Move.of_step {setup : Setup} {s after : System} {event : Event} {shown : List Output}
    (single : event.Single setup) (accepted : step setup s event = some (after, shown)) :
    Move setup s event after shown := by
  cases Performs.of_step accepted with
  | read x page ready =>
      rw [menuRead_inRange single]
      unfold Machine.pageRead
      split
      · rename_i absent
        exact .miss x page ready single absent
      · rename_i present
        have held : (s.machine x).listMSI page ≠ .invalid := by
          intro same
          exact present (by rw [same]; rfl)
        split
        · exact .hit x page _ ready single held (by simp [System.apply])
        · exact .hit x page _ ready single held (by simp [System.apply])
  | write x page message ready =>
      rw [menuWrite_inRange single]
      exact .write x page message ready single
  | receive x index next waiting available => exact .receive x index next _ waiting available
  | serve x recvData rest oldest => exact .serve x recvData rest oldest
  | select x page _ready => exact single.elim
  | enter x message _place => exact single.elim
  | readAll x count _place => exact single.elim
  | writeAll x count message _place => exact single.elim

/-! ### The parts of a system after a step -/

section Frame

variable (s : System) (x : Host) (machine : Machine) (data : ProcInfo)

@[simp] theorem System.put_machine_self : (s.put x machine).machine x = machine :=
  Function.update_self ..

@[simp] theorem System.put_machine_peer :
    (s.put x machine).machine x.peer = s.machine x.peer :=
  Function.update_of_ne (Host.peer_ne x) ..

@[simp] theorem System.put_inbox : (s.put x machine).inbox = s.inbox := rfl

@[simp] theorem System.put_replies : (s.put x machine).replies = s.replies := rfl

@[simp] theorem System.post_machine : (s.post x data).machine = s.machine := rfl

@[simp] theorem System.post_replies : (s.post x data).replies = s.replies := rfl

@[simp] theorem System.post_inbox_self : (s.post x data).inbox x = s.inbox x :=
  Function.update_of_ne (Host.ne_peer x) ..

@[simp] theorem System.post_inbox_peer :
    (s.post x data).inbox x.peer = s.inbox x.peer ++ [data] :=
  Function.update_self ..

variable (left : List UInt8)

@[simp] theorem System.unread_machine : (s.unread x left).machine = s.machine := rfl

@[simp] theorem System.unread_inbox : (s.unread x left).inbox = s.inbox := rfl

@[simp] theorem System.unread_replies_self : (s.unread x left).replies x = left :=
  Function.update_self ..

@[simp] theorem System.unread_replies_peer :
    (s.unread x left).replies x.peer = s.replies x.peer :=
  Function.update_of_ne (Host.peer_ne x) ..

variable (setup : Setup) (rest : List ProcInfo)

def System.answer (s : System) (setup : Setup) (x : Host) (recvData : ProcInfo) :
    Option (List UInt8) :=
  serverReply ((s.machine x).listMSI recvData.pageNum) recvData
    (cString (s.machine x).addr recvData.accessPage (setup.rest recvData.accessPage))

@[simp] theorem System.serve_machine_self :
    (s.serve setup x data rest).1.machine x = (s.machine x).afterServe data := by
  unfold System.serve
  rw [serverReceive_eq]
  simp only []
  split <;> exact System.put_machine_self ..

@[simp] theorem System.serve_machine_peer :
    (s.serve setup x data rest).1.machine x.peer = s.machine x.peer := by
  unfold System.serve
  simp only []
  split <;> exact System.put_machine_peer ..

@[simp] theorem System.serve_inbox_self : (s.serve setup x data rest).1.inbox x = rest := by
  unfold System.serve
  simp only []
  split <;> exact Function.update_self ..

@[simp] theorem System.serve_inbox_peer :
    (s.serve setup x data rest).1.inbox x.peer = s.inbox x.peer := by
  unfold System.serve
  simp only []
  split <;> exact Function.update_of_ne (Host.peer_ne x) ..

@[simp] theorem System.serve_replies_self :
    (s.serve setup x data rest).1.replies x = s.replies x := by
  unfold System.serve
  simp only []
  split
  · rfl
  · exact Function.update_of_ne (Host.ne_peer x) ..

@[simp] theorem System.serve_replies_peer :
    (s.serve setup x data rest).1.replies x.peer =
      s.replies x.peer ++ (s.answer setup x data).getD [] := by
  unfold System.serve System.answer
  rw [serverReceive_eq]
  simp only []
  split
  · rename_i silent
    rw [silent, Option.getD_none, List.append_nil]
    rfl
  · rename_i text answered
    rw [answered, Option.getD_some]
    exact Function.update_self ..

theorem System.serve_outputs :
    (s.serve setup x data rest).2 =
      match s.answer setup x data with
      | none => []
      | some text => [.replied x.peer data.pageNum text] := by
  unfold System.serve System.answer
  rw [serverReceive_eq]
  simp only []
  split <;> rfl

end Frame

section Inboxes

variable {fit : ProcInfo → Prop} {s : System}

/-- What holds of the structs in flight holds after one more is sent of which it holds. -/
theorem System.post_structs (before : ∀ x, ∀ data ∈ s.inbox x, fit data) (x : Host)
    {data : ProcInfo} (sent : fit data) : ∀ z, ∀ posted ∈ (s.post x data).inbox z, fit posted := by
  intro z posted member
  rcases Host.eq_or_eq_peer x z with rfl | rfl
  · rw [System.post_inbox_self] at member
    exact before _ posted member
  · rw [System.post_inbox_peer] at member
    rcases List.mem_append.mp member with earlier | new
    · exact before _ posted earlier
    · rw [List.mem_singleton.mp new]
      exact sent

theorem System.serve_structs (before : ∀ x, ∀ data ∈ s.inbox x, fit data) (setup : Setup)
    {x : Host} {recvData : ProcInfo} {rest : List ProcInfo}
    (oldest : s.inbox x = recvData :: rest) :
    ∀ z, ∀ data ∈ (s.serve setup x recvData rest).1.inbox z, fit data := by
  intro z data member
  rcases Host.eq_or_eq_peer x z with rfl | rfl
  · rw [System.serve_inbox_self] at member
    exact before z data (by rw [oldest]; exact List.mem_cons_of_mem _ member)
  · rw [System.serve_inbox_peer] at member
    exact before _ data member

end Inboxes

def Event.host : Event → Host
  | .read x _ | .write x _ _ | .select x _ | .enter x _ | .iterate x | .receive x
  | .serve x => x

theorem Move.machine_peer {setup : Setup} {s after : System} {event : Event}
    {shown : List Output} (move : Move setup s event after shown) :
    after.machine event.host.peer = s.machine event.host.peer := by
  cases move with
  | hit x page shown _ready _inRange _held => exact System.put_machine_peer ..
  | miss x page _ready _inRange _absent => exact System.put_machine_peer ..
  | write x page message _ready _inRange => exact System.put_machine_peer ..
  | receive x index next text _waiting _available => exact System.put_machine_peer ..
  | serve x recvData rest _oldest => exact System.serve_machine_peer ..

/-- A property of single machines is kept if the machine that moves keeps it. -/
theorem Move.machines {setup : Setup} {s after : System} {event : Event}
    {shown : List Output} (move : Move setup s event after shown) (good : Machine → Prop)
    (before : ∀ x, good (s.machine x)) (own : good (after.machine event.host)) :
    ∀ x, good (after.machine x) := by
  intro x
  rcases Host.eq_or_eq_peer event.host x with rfl | rfl
  · exact own
  · rw [move.machine_peer]
    exact before _

theorem System.apply_machine_self (s : System) (x : Host) (result : Machine × MenuEffect) :
    (s.apply x result).1.machine x = result.1 := by
  obtain ⟨machine, effect⟩ := result
  cases effect with
  | silent => exact System.put_machine_self ..
  | send data => exact System.put_machine_self ..
  | display text => exact System.put_machine_self ..

theorem System.apply_machine_peer (s : System) (x : Host) (result : Machine × MenuEffect) :
    (s.apply x result).1.machine x.peer = s.machine x.peer := by
  obtain ⟨machine, effect⟩ := result
  cases effect with
  | silent => exact System.put_machine_peer ..
  | send data => exact System.put_machine_peer ..
  | display text => exact System.put_machine_peer ..

theorem System.apply_replies (s : System) (x : Host) (result : Machine × MenuEffect) :
    (s.apply x result).1.replies = s.replies := by
  obtain ⟨machine, effect⟩ := result
  cases effect with
  | silent => rfl
  | send data => rfl
  | display text => rfl

/-- What any event does: a menu that is not blocked moves, a blocked one gets its reply,
or a receive loop takes a struct. -/
inductive Happens (setup : Setup) (s : System) : Event → System × List Output → Prop
  | menu {event : Event} (result : Machine × MenuEffect)
      (idle : (s.machine event.host).menu.awaiting = none)
      (other : ∀ z, event ≠ .serve z ∧ event ≠ .receive z) :
      Happens setup s event (s.apply event.host result)
  | receive (x : Host) (index : Int) (next : Menu)
      (waiting : (s.machine x).menu.awaiting = some (index, next))
      (available : s.replies x ≠ []) :
      Happens setup s (.receive x)
        ((s.unread x ((s.replies x).drop setup.pageSize)).apply x
          (menuReceive setup index next ((s.replies x).take setup.pageSize) (s.machine x)))
  | serve (x : Host) (recvData : ProcInfo) (rest : List ProcInfo)
      (oldest : s.inbox x = recvData :: rest) :
      Happens setup s (.serve x) (s.serve setup x recvData rest)

theorem Happens.of_step {setup : Setup} {s : System} {event : Event}
    {result : System × List Output} (accepted : step setup s event = some result) :
    Happens setup s event result := by
  have unblocked : ∀ {menu place : Menu}, menu = place → place.awaiting = none →
      menu.awaiting = none := by
    intro menu place here idle
    rw [here, idle]
  obtain ⟨after, shown⟩ := result
  cases Performs.of_step accepted with
  | read x page ready =>
      exact @Happens.menu _ _ (.read x page) _ (unblocked ready rfl) (by simp)
  | write x page message ready =>
      exact @Happens.menu _ _ (.write x page message) _ (unblocked ready rfl) (by simp)
  | select x page ready =>
      exact @Happens.menu _ _ (.select x page) (_, .silent) (unblocked ready rfl) (by simp)
  | enter x message place =>
      rcases place with one | all
      · exact @Happens.menu _ _ (.enter x message) _ (unblocked one rfl) (by simp)
      · exact @Happens.menu _ _ (.enter x message) _ (unblocked all rfl) (by simp)
  | readAll x count place =>
      exact @Happens.menu _ _ (.iterate x) _ (unblocked place rfl) (by simp)
  | writeAll x count message place =>
      exact @Happens.menu _ _ (.iterate x) _ (unblocked place rfl) (by simp)
  | receive x index next waiting available => exact .receive x index next waiting available
  | serve x recvData rest oldest => exact .serve x recvData rest oldest

theorem Happens.machine_peer {setup : Setup} {s : System} {event : Event}
    {result : System × List Output} (happens : Happens setup s event result) :
    result.1.machine event.host.peer = s.machine event.host.peer := by
  cases happens with
  | menu result _idle _other => exact System.apply_machine_peer ..
  | receive x index next _waiting _available => exact System.apply_machine_peer ..
  | serve x recvData rest _oldest => exact System.serve_machine_peer ..

/-! ### Steps that are accepted -/

section Accepted

variable {setup : Setup} {s : System} {x : Host} {page : Int}

theorem step_hit (ready : (s.machine x).menu = .prompt) (inRange : setup.InRange page)
    (held : ((s.machine x).listMSI page).I ≠ true) :
    ∃ shown, step setup s (.read x page) =
        some (s.put x ((s.machine x).afterHit setup page .prompt), shown) ∧
      ∀ reader answered text, Output.replied reader answered text ∉ shown := by
  by_cases present : ((s.machine x).listMSI page).S = true ∨
      ((s.machine x).listMSI page).M = true
  · refine ⟨[.displayed x ((s.machine x).pageText setup page)], ?_, by simp⟩
    simp only [step, if_pos ready, menuRead_inRange inRange, Machine.pageRead, if_neg held,
      if_pos present, System.apply]
  · refine ⟨[], ?_, by simp⟩
    simp only [step, if_pos ready, menuRead_inRange inRange, Machine.pageRead, if_neg held,
      if_neg present, System.apply]

theorem step_miss (ready : (s.machine x).menu = .prompt) (inRange : setup.InRange page)
    (absent : ((s.machine x).listMSI page).I = true) :
    step setup s (.read x page) =
      some ((s.put x ((s.machine x).afterMiss setup page (.awaitReply page))).post x
          (readRequest setup page (s.machine x).tempData),
        [.sent x (readRequest setup page (s.machine x).tempData)]) := by
  simp only [step, if_pos ready, menuRead_inRange inRange, Machine.pageRead, if_pos absent,
    System.apply]

theorem step_write (ready : (s.machine x).menu = .prompt) (inRange : setup.InRange page)
    (message : List UInt8) :
    step setup s (.write x page message) =
      some ((s.put x ((s.machine x).afterWrite setup page message .prompt)).post x
          (writeRequest setup ((s.machine x).listMSI page) page (s.machine x).tempData),
        [.sent x (writeRequest setup ((s.machine x).listMSI page) page
          (s.machine x).tempData)]) := by
  simp only [step, if_pos ready, menuWrite_inRange inRange, Machine.pageWrite, System.apply]

theorem step_receive {index : Int} {next : Menu}
    (waiting : (s.machine x).menu.awaiting = some (index, next))
    (available : s.replies x ≠ []) :
    ∃ text, step setup s (.receive x) =
      some ((s.unread x ((s.replies x).drop setup.pageSize)).put x
          (menuReceive setup index next ((s.replies x).take setup.pageSize)
            (s.machine x)).1,
        [.displayed x text]) := by
  simp only [step, waiting, if_neg available]
  exact ⟨_, rfl⟩

theorem step_serve {recvData : ProcInfo} {rest : List ProcInfo}
    (oldest : s.inbox x = recvData :: rest) :
    step setup s (.serve x) = some (s.serve setup x recvData rest) := by
  simp only [step, oldest]

end Accepted

/-! ### The MSI table stays one-hot -/

def OneHotTable (setup : Setup) (s : System) : Prop :=
  ∀ x page, setup.InRange page → ((s.machine x).listMSI page).OneHot

theorem Initial.oneHot {setup : Setup} {s : System} (initial : Initial setup s) :
    OneHotTable setup s :=
  fun x page inRange => .inr (.inr (initial.invalid x page inRange))

private theorem oneHot_update {setup : Setup} {table : Int → MSIList} {entry : MSIList}
    (before : ∀ page, setup.InRange page → (table page).OneHot) (index : Int)
    (changed : setup.InRange index → entry.OneHot) (page : Int) (inRange : setup.InRange page) :
    (Function.update table index entry page).OneHot := by
  by_cases same : page = index
  · subst same
    rw [Function.update_self]
    exact changed inRange
  · rw [Function.update_of_ne same]
    exact before page inRange

theorem Move.oneHot {setup : Setup} {s after : System} {event : Event} {shown : List Output}
    (move : Move setup s event after shown) (before : OneHotTable setup s) :
    OneHotTable setup after := by
  have others : ∀ x, (after.machine x.peer).listMSI = (s.machine x.peer).listMSI →
      (∀ page, setup.InRange page → ((after.machine x).listMSI page).OneHot) →
      OneHotTable setup after := by
    intro x unchanged own z page inRange
    rcases Host.eq_or_eq_peer x z with rfl | rfl
    · exact own page inRange
    · rw [unchanged]
      exact before _ page inRange
  cases move with
  | hit x page shown _ready _inRange _held =>
      refine others x (by simp) ?_
      rw [System.put_machine_self]
      exact before x
  | miss x page _ready _inRange _absent =>
      refine others x (by simp) ?_
      rw [System.post_machine, System.put_machine_self]
      exact oneHot_update (before x) page (fun _ => .inr (.inl rfl))
  | write x page message _ready _inRange =>
      refine others x (by simp) ?_
      rw [System.post_machine, System.put_machine_self]
      exact oneHot_update (before x) page (fun _ => .inl rfl)
  | receive x index next text _waiting _available =>
      refine others x (by simp) ?_
      rw [System.put_machine_self]
      exact before x
  | serve x recvData rest _oldest =>
      refine others x (by rw [System.serve_machine_peer]) ?_
      rw [System.serve_machine_self]
      exact oneHot_update (before x) recvData.pageNum
        (fun inRange => serverEntry_oneHot (before x _ inRange) recvData)

/-! ### Every struct in flight names a page that exists -/

def ProcInfo.Names (setup : Setup) (data : ProcInfo) : Prop :=
  setup.InRange data.pageNum ∧ data.accessPage = data.pageNum * setup.pageSize

def NamesPages (setup : Setup) (s : System) : Prop :=
  ∀ x, ∀ data ∈ s.inbox x, data.Names setup

theorem Initial.namesPages {setup : Setup} {s : System} (initial : Initial setup s) :
    NamesPages setup s := by
  intro x data member
  rw [initial.inboxEmpty x] at member
  cases member

theorem Move.namesPages {setup : Setup} {s after : System} {event : Event}
    {shown : List Output} (move : Move setup s event after shown)
    (before : NamesPages setup s) : NamesPages setup after := by
  cases move with
  | hit x page shown _ready _inRange _held => exact before
  | miss x page _ready inRange _absent =>
      exact System.post_structs (s := s.put x _) before x ⟨inRange, rfl⟩
  | write x page message _ready inRange =>
      exact System.post_structs (s := s.put x _) before x ⟨inRange, rfl⟩
  | receive x index next text _waiting _available => exact before
  | serve x recvData rest oldest => exact System.serve_structs before setup oldest

/-! ### Invariants over every event -/

structure System.Fits (good : Machine → Prop) (fit : ProcInfo → Prop) (s : System) : Prop where
  machines : ∀ x, good (s.machine x)
  structs : ∀ x, ∀ data ∈ s.inbox x, fit data

def MenuKeeps (good : Machine → Prop) (fit : ProcInfo → Prop)
    (result : Machine × MenuEffect) : Prop :=
  good result.1 ∧ ∀ data, result.2 = .send data → fit data

structure KeepsEach (setup : Setup) (allowed : Event → Prop) (good : Machine → Prop)
    (fit : ProcInfo → Prop) : Prop where
  read : ∀ x page machine, good machine → allowed (.read x page) →
    MenuKeeps good fit (menuRead setup page machine)
  write : ∀ x page message machine, good machine → allowed (.write x page message) →
    MenuKeeps good fit (menuWrite setup page message machine)
  select : ∀ x page machine, good machine → allowed (.select x page) →
    good (menuWriteSelect setup page machine)
  enter : ∀ x message machine, good machine → allowed (.enter x message) →
    MenuKeeps good fit (menuWriteMessage message machine)
  readAll : ∀ count machine, good machine → machine.menu = .readAll count →
    MenuKeeps good fit (menuReadAll setup count machine)
  writeAll : ∀ count message machine, good machine → machine.menu = .writeAll count message →
    MenuKeeps good fit (menuWriteAll setup count message machine)
  receive : ∀ index next received machine, good machine →
    machine.menu.awaiting = some (index, next) →
    good (menuReceive setup index next received machine).1
  serve : ∀ recvData machine, good machine → fit recvData → good (machine.afterServe recvData)

section Fitting

variable {good : Machine → Prop} {fit : ProcInfo → Prop} {s : System}

theorem MenuKeeps.of_silent {machine : Machine} (own : good machine) :
    MenuKeeps good fit (machine, .silent) := by
  refine ⟨own, ?_⟩
  intro data sent
  cases sent

theorem MenuKeeps.of_display {machine : Machine} {text : List UInt8} (own : good machine) :
    MenuKeeps good fit (machine, .display text) := by
  refine ⟨own, ?_⟩
  intro data sent
  cases sent

theorem MenuKeeps.of_send {machine : Machine} {data : ProcInfo} (own : good machine)
    (fitting : fit data) : MenuKeeps good fit (machine, .send data) := by
  refine ⟨own, ?_⟩
  intro posted sent
  cases sent
  exact fitting

theorem System.Fits.put (fits : s.Fits good fit) (x : Host) {machine : Machine}
    (own : good machine) : (s.put x machine).Fits good fit := by
  refine ⟨?_, fits.structs⟩
  intro z
  rcases Host.eq_or_eq_peer x z with rfl | rfl
  · rw [System.put_machine_self]
    exact own
  · rw [System.put_machine_peer]
    exact fits.machines _

theorem System.Fits.post (fits : s.Fits good fit) (x : Host) {data : ProcInfo}
    (sent : fit data) : (s.post x data).Fits good fit :=
  ⟨fits.machines, System.post_structs fits.structs x sent⟩

theorem System.Fits.apply (fits : s.Fits good fit) (x : Host) {result : Machine × MenuEffect}
    (keeps : MenuKeeps good fit result) : (s.apply x result).1.Fits good fit := by
  obtain ⟨machine, effect⟩ := result
  obtain ⟨own, sent⟩ := keeps
  cases effect with
  | silent => exact fits.put x own
  | send data => exact (fits.put x own).post x (sent data rfl)
  | display text => exact fits.put x own

theorem System.Fits.serve (fits : s.Fits good fit) (setup : Setup) (x : Host)
    {recvData : ProcInfo} {rest : List ProcInfo} (oldest : s.inbox x = recvData :: rest)
    (own : good ((s.machine x).afterServe recvData)) :
    (s.serve setup x recvData rest).1.Fits good fit := by
  constructor
  · intro z
    rcases Host.eq_or_eq_peer x z with rfl | rfl
    · rw [System.serve_machine_self]
      exact own
    · rw [System.serve_machine_peer]
      exact fits.machines _
  · exact System.serve_structs fits.structs setup oldest

/-- The step rule: the functions keep what the steps made of them keep. -/
theorem System.Fits.step {setup : Setup} {allowed : Event → Prop}
    (each : KeepsEach setup allowed good fit) (fits : s.Fits good fit) {event : Event}
    (admitted : allowed event) {after : System} {shown : List Output}
    (accepted : step setup s event = some (after, shown)) : after.Fits good fit := by
  cases Performs.of_step accepted with
  | read x page _ready =>
      exact fits.apply x (each.read x page _ (fits.machines x) admitted)
  | write x page message _ready =>
      exact fits.apply x (each.write x page message _ (fits.machines x) admitted)
  | select x page _ready =>
      exact fits.apply x (.of_silent (each.select x page _ (fits.machines x) admitted))
  | enter x message _place =>
      exact fits.apply x (each.enter x message _ (fits.machines x) admitted)
  | readAll x count place =>
      exact fits.apply x (each.readAll count _ (fits.machines x) place)
  | writeAll x count message place =>
      exact fits.apply x (each.writeAll count message _ (fits.machines x) place)
  | receive x index next waiting _available =>
      have own := each.receive index next ((s.replies x).take setup.pageSize) _
        (fits.machines x) waiting
      have unread : (s.unread x ((s.replies x).drop setup.pageSize)).Fits good fit :=
        ⟨fits.machines, fits.structs⟩
      exact unread.apply x (.of_display own)
  | serve x recvData rest oldest =>
      have fitting : fit recvData :=
        fits.structs x recvData (by rw [oldest]; exact List.mem_cons_self)
      exact fits.serve setup x oldest (each.serve recvData _ (fits.machines x) fitting)

end Fitting

/-! ### Two pages, as a concrete setup -/

def twoPages : Setup := ⟨4096, by decide, 2⟩

section Play

variable (allowed : System → Event → Prop) [∀ s event, Decidable (allowed s event)]

def play (events : List Event) : Option (System × List Output) :=
  execute (step twoPages) (fun s event => decide (allowed s event)) (freshSystem twoPages)
    events

def reached (events : List Event) (runs : (play allowed events).isSome = true) : System :=
  ((play allowed events).get runs).1

theorem play_run (events : List Event) (runs : (play allowed events).isSome = true) :
    Run (step twoPages) allowed (freshSystem twoPages) events
      ((play allowed events).get runs).2 (reached allowed events runs) :=
  (Run.of_executes _ runs).weaken (fun _ _ checked => of_decide_eq_true checked)

end Play

theorem drained_of_hosts {s : System} (one : s.inbox .one = []) (two : s.inbox .two = []) :
    Drained s := by
  intro x
  cases x with
  | one => exact one
  | two => exact two

end LKP.Dsm
