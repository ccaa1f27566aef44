import LKP.Dsm.MissReply

/-
Runs in which no receipt disturbs the signals of another page.

`temp_data = recv_data` replaces the signals of every page by the sender's.  For a
page in S that is harmless, since the next command on it that sends sets all of its
signals.  For a page in I the next read sends its bus signals as they stand, and for
a page in M the next write sends its bus and its read signals.  While a receipt
leaves these alone, the machines stay in the order described here.
-/

set_option autoImplicit false

namespace LKP.Dsm

open TransitionRun CBuffer

/-- Messages leave a NUL in their page, and a received struct agrees with `temp_data` on
the signals of other pages that a later command would send. -/
def Undisturbed (setup : Setup) (s : System) : Event → Prop
  | .write _ _ message => (strBytes message).length < setup.pageSize
  | .serve x =>
      ∀ recvData ∈ (s.inbox x).head?, ∀ page, setup.InRange page → page ≠ recvData.pageNum →
        ((s.machine x).listMSI page ≠ .shared →
          (recvData.busRequest page ↔ (s.machine x).tempData.busRequest page)) ∧
        ((s.machine x).listMSI page = .modified → recvData.readSignal page = 0)
  | _ => True

def ProcInfo.Plain (data : ProcInfo) : Prop :=
  data.readSignal data.pageNum = 0 ∨
    (data.readSignal data.pageNum = 1 ∧ data.invalidateSignal data.pageNum = 0)

def Machine.Quiet (setup : Setup) (machine : Machine) : Prop :=
  ∀ page, setup.InRange page → machine.listMSI page = .modified →
    machine.tempData.readSignal page = 0

def Machine.Terminated (setup : Setup) (machine : Machine) : Prop :=
  ∀ page, setup.InRange page →
    machine.addr (page * setup.pageSize + (setup.pageSize - 1 : Nat)) = 0

def Machine.SingleMenu (setup : Setup) (machine : Machine) : Prop :=
  machine.menu = .prompt ∨ ∃ page, setup.InRange page ∧ machine.menu = .awaitReply page

structure Ordered (setup : Setup) (s : System) : Prop where
  table : OneHotTable setup s
  names : NamesPages setup s
  plain : ∀ x, ∀ data ∈ s.inbox x, data.Plain
  quiet : ∀ x, (s.machine x).Quiet setup
  terminated : ∀ x, (s.machine x).Terminated setup
  menus : ∀ x, (s.machine x).SingleMenu setup
  owed : AllOwed (fun text => text.length ≤ setup.pageSize) s

theorem Initial.ordered {setup : Setup} {s : System} (initial : Initial setup s) :
    Ordered setup s where
  table := initial.oneHot
  names := initial.namesPages
  plain := by
    intro x data member
    rw [initial.inboxEmpty x] at member
    cases member
  quiet := by
    intro x page inRange owned
    rw [initial.invalid x page inRange] at owned
    cases owned
  terminated := fun x _ _ => initial.zero x _
  menus := fun x => .inl (initial.prompt x)
  owed := initial.allOwed _

/-! ### One step at a time -/

theorem readRequest_plain (setup : Setup) (page : Int) (data : ProcInfo) :
    (readRequest setup page data).Plain :=
  .inr ⟨readRequest_readSignal .., readRequest_invalidateSignal ..⟩

theorem writeRequest_off {setup : Setup} {machine : Machine} {page : Int}
    (quiet : machine.Quiet setup) (inRange : setup.InRange page)
    (oneHot : (machine.listMSI page).OneHot) :
    (writeRequest setup (machine.listMSI page) page machine.tempData).readSignal page =
      0 := by
  by_cases owned : machine.listMSI page = .modified
  · rw [owned, writeRequest_modified]
    exact quiet page inRange owned
  · exact writeRequest_readSignal_off setup oneHot owned page _

theorem serverEntry_plain {entry : MSIList} (oneHot : entry.OneHot) {recvData : ProcInfo}
    (plain : recvData.Plain) : serverEntry entry recvData ≠ .modified := by
  rcases plain with off | ⟨on, _invalidate⟩
  · rw [serverEntry_of_read_off oneHot off]
    decide
  · intro kept
    have owned := serverEntry_eq_modified oneHot kept
    rw [owned, serverEntry_modified, if_pos on] at kept
    cases kept

theorem Machine.Terminated.memset {setup : Setup} {machine : Machine}
    (terminated : machine.Terminated setup) (offset : Int) (length : Nat) {page : Int}
    (inRange : setup.InRange page) :
    CBuffer.memset machine.addr offset 0 length
      (page * setup.pageSize + (setup.pageSize - 1 : Nat)) = 0 := by
  unfold CBuffer.memset
  split
  · rfl
  · exact terminated page inRange

/-- A short message at the start of a page leaves the last byte of every page alone. -/
theorem Machine.Terminated.memcpy {setup : Setup} {machine : Machine}
    (terminated : machine.Terminated setup) (index : Int) {message : List UInt8}
    (short : (strBytes message).length < setup.pageSize) {page : Int}
    (inRange : setup.InRange page) :
    CBuffer.memcpy machine.addr (index * setup.pageSize) (strBytes message)
      (page * setup.pageSize + (setup.pageSize - 1 : Nat)) = 0 := by
  rw [memcpy_outside]
  · exact terminated page inRange
  · have positive := setup.pageSize_pos
    by_cases same : page = index
    · subst same
      omega
    · have lower : page * setup.pageSize ≤
          page * setup.pageSize + (setup.pageSize - 1 : Nat) := by omega
      have disjoint := setup.page_disjoint same lower (by omega)
      omega

theorem Machine.flush_short {setup : Setup} {machine : Machine} {recvData : ProcInfo}
    (terminated : machine.Terminated setup) (names : recvData.Names setup) :
    (machine.flushText setup recvData).length ≤ setup.pageSize := by
  have positive := setup.pageSize_pos
  have bounded := cString_length_le_of_nul machine.addr recvData.accessPage
    (setup.rest recvData.accessPage) (setup.pageSize - 1)
    (by rw [names.2]; exact terminated _ names.1)
  unfold Machine.flushText
  omega

theorem System.answer_short {setup : Setup} {s : System} {x : Host} {recvData : ProcInfo}
    (terminated : (s.machine x).Terminated setup) (names : recvData.Names setup) :
    ((s.answer setup x recvData).getD []).length ≤ setup.pageSize := by
  have positive := setup.pageSize_pos
  unfold System.answer serverReply
  simp only []
  split
  · exact Machine.flush_short terminated names
  · split
    · exact Nat.zero_le _
    · split
      · exact positive
      · exact Nat.zero_le _

section Step

variable {setup : Setup} {s after : System} {event : Event} {shown : List Output}

theorem Move.quiet (move : Move setup s event after shown) (ordered : Ordered setup s)
    (undisturbed : Undisturbed setup s event) :
    ∀ x, (after.machine x).Quiet setup := by
  refine move.machines (Machine.Quiet setup) ordered.quiet ?_
  cases move with
  | hit x index shown _ready _inRange _held =>
      simp only [Event.host, System.put_machine_self]
      exact ordered.quiet x
  | miss x index _ready _inRange _absent =>
      simp only [Event.host, System.post_machine, System.put_machine_self]
      intro page inRange owned
      have other : page ≠ index := by
        intro same
        subst same
        rw [afterMiss_listMSI, Function.update_self] at owned
        cases owned
      rw [afterMiss_listMSI, Function.update_of_ne other] at owned
      exact (Function.update_of_ne other ..).trans (ordered.quiet x page inRange owned)
  | write x index message _ready named =>
      simp only [Event.host, System.post_machine, System.put_machine_self]
      intro page inRange owned
      by_cases same : page = index
      · subst same
        exact writeRequest_off (ordered.quiet x) inRange (ordered.table x page inRange)
      · rw [afterWrite_listMSI, Function.update_of_ne same] at owned
        exact (writeSignals_other _ same _).1.trans (ordered.quiet x page inRange owned)
  | receive x index next text _waiting _available =>
      simp only [Event.host, System.put_machine_self]
      intro page inRange owned
      rw [menuReceive_readSignal]
      by_cases same : page = index
      · subst same
        exact Function.update_self ..
      · exact (Function.update_of_ne same ..).trans (ordered.quiet x page inRange owned)
  | serve x recvData rest oldest =>
      simp only [Event.host, System.serve_machine_self]
      intro page inRange owned
      by_cases same : page = recvData.pageNum
      · subst same
        rw [afterServe_listMSI, Function.update_self] at owned
        exact absurd owned (serverEntry_plain (ordered.table x _ inRange)
          (ordered.plain x recvData (by rw [oldest]; exact List.mem_cons_self)))
      · rw [afterServe_listMSI, Function.update_of_ne same] at owned
        exact (undisturbed recvData (by rw [oldest]; rfl) page inRange same).2 owned

/-- The last byte of a page is only written by a message that fills the page. -/
theorem Move.terminated (move : Move setup s event after shown)
    (short : ∀ x page message, event = .write x page message →
      (strBytes message).length < setup.pageSize)
    (before : ∀ x, (s.machine x).Terminated setup) :
    ∀ x, (after.machine x).Terminated setup := by
  refine move.machines (Machine.Terminated setup) before ?_
  cases move with
  | hit x index shown _ready _inRange _held =>
      simp only [Event.host, System.put_machine_self]
      exact before x
  | miss x index _ready _inRange _absent =>
      simp only [Event.host, System.post_machine, System.put_machine_self]
      intro page inRange
      exact (before x).memset _ _ inRange
  | write x index message _ready _inRange =>
      simp only [Event.host, System.post_machine, System.put_machine_self]
      intro page inRange
      exact (before x).memcpy index (short x index message rfl) inRange
  | receive x index next text _waiting _available =>
      simp only [Event.host, System.put_machine_self]
      exact before x
  | serve x recvData rest oldest =>
      simp only [Event.host, System.serve_machine_self]
      exact before x

theorem Move.singleMenus (move : Move setup s event after shown)
    (before : ∀ x, (s.machine x).SingleMenu setup) :
    ∀ x, (after.machine x).SingleMenu setup := by
  refine move.machines (Machine.SingleMenu setup) before ?_
  cases move with
  | hit x index shown _ready _inRange _held =>
      simp only [Event.host, System.put_machine_self]
      exact .inl rfl
  | miss x index _ready inRange _absent =>
      simp only [Event.host, System.post_machine, System.put_machine_self]
      exact .inr ⟨index, inRange, rfl⟩
  | write x index message _ready _inRange =>
      simp only [Event.host, System.post_machine, System.put_machine_self]
      exact .inl rfl
  | receive x index next text waiting _available =>
      simp only [Event.host, System.put_machine_self]
      left
      rcases before x with prompt | ⟨page, _inRange, blocked⟩
      · rw [prompt] at waiting
        cases waiting
      · rw [blocked] at waiting
        cases waiting
        rfl
  | serve x recvData rest _oldest =>
      simp only [Event.host, System.serve_machine_self]
      exact before x

theorem Move.menus (move : Move setup s event after shown) (ordered : Ordered setup s) :
    ∀ x, (after.machine x).SingleMenu setup := move.singleMenus ordered.menus

theorem Move.plain (move : Move setup s event after shown) (ordered : Ordered setup s) :
    ∀ x, ∀ data ∈ after.inbox x, data.Plain := by
  cases move with
  | hit x index shown _ready _inRange _held => exact ordered.plain
  | miss x index _ready _inRange _absent =>
      exact System.post_structs (s := s.put x _) ordered.plain x (readRequest_plain ..)
  | write x index message _ready inRange =>
      exact System.post_structs (s := s.put x _) ordered.plain x
        (.inl (writeRequest_off (ordered.quiet x) inRange (ordered.table x index inRange)))
  | receive x index next text _waiting _available => exact ordered.plain
  | serve x recvData rest oldest => exact System.serve_structs ordered.plain setup oldest

/-- In order, no write in M finds its read signal on. -/
theorem Ordered.clean (ordered : Ordered setup s) (single : event.Single setup) :
    CleanWrite s event := by
  cases event with
  | write x page message =>
      intro owned
      rw [ordered.quiet x page single owned]
      decide
  | _ => trivial

theorem Move.ordered (move : Move setup s event after shown) (single : event.Single setup)
    (ordered : Ordered setup s) (undisturbed : Undisturbed setup s event) :
    Ordered setup after where
  table := move.oneHot ordered.table
  names := move.namesPages ordered.names
  plain := move.plain ordered
  quiet := move.quiet ordered undisturbed
  terminated := by
    refine move.terminated ?_ ordered.terminated
    rintro x page message rfl
    exact undisturbed
  menus := move.menus ordered
  owed := by
    refine move.allOwed (fun _ short => short) (ordered.clean single) ?_ ordered.table
      ordered.owed
    intro x recvData _serves oldest _asks
    exact System.answer_short (ordered.terminated x)
      (ordered.names x recvData (List.mem_of_mem_head? oldest))

end Step

end LKP.Dsm
