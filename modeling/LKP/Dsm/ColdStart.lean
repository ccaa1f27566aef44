import LKP.Dsm.InitialisationOrder
import LKP.Dsm.SecondMachine

/-
What the protocol starts from.

The runs of the two menus and receive loops start with every page in I, the same page
count on both machines and nothing in flight.  Start-up leaves the two processes exactly
there when one became machine 1 and the other machine 2, the latter's threads kept out of
their two windows, and nobody entered a command before both menus were there.
-/

set_option autoImplicit false

namespace LKP.Dsm

open TransitionRun CBuffer

/-- The processes as the machines of the protocol, with the pages that were mapped and the
buffer that `menu` allocates. -/
def Pair.system (s : Pair) (addr recvMessage : Host → Buffer) : System where
  machine x :=
    { listMSI := (s.process x).listMSI
      tempData := (s.process x).tempData
      addr := addr x
      recvMessage := recvMessage x
      menu := .prompt }
  inbox := s.inbox
  replies := fun _ => []

def Opens (x : Host) (s : Pair) (action : Action) : Prop :=
  InTime x s action ∧
    match action with
    | .client _ (.command _) => False
    | _ => True

instance (x : Host) (s : Pair) (action : Action) : Decidable (Opens x s action) :=
  haveI : Decidable
      (match action with
        | .client _ (.command _) => False
        | _ => True) := by
    split <;> infer_instance
  inferInstanceAs (Decidable (_ ∧ _))

/-! ### The tables of the two processes -/

def Process.AllInvalid (process : Process) (count : Int) : Prop :=
  ∀ page, 0 ≤ page → page < count → process.listMSI page = .invalid

def FirstTable (process : Process) : Prop :=
  match process.client with
  | .mapping => process.sendData.pageCount = process.tempData.pageCount
  | .initialising count =>
      process.sendData.pageCount = process.tempData.pageCount ∧ process.AllInvalid count
  | .sending | .creating | .registering =>
      process.sendData.pageCount = process.tempData.pageCount ∧
        process.AllInvalid process.tempData.pageCount
  | .starting | .menu =>
      process.mchNum = 1 → process.sendData.pageCount = process.tempData.pageCount ∧
        process.AllInvalid process.tempData.pageCount
  | _ => True

def Process.Untaken (process : Process) : Prop :=
  match process.server with
  | .start | .bound | .listening | .accepted | .handshake => True
  | .receiving => process.mchNum ≠ 2
  | _ => False

def SecondTable (count : Int) (process : Process) : Prop :=
  match process.server with
  | .mapping => process.tempData.pageCount = count
  | .initialising page => process.tempData.pageCount = count ∧ process.AllInvalid page
  | .creating | .registering =>
      process.tempData.pageCount = count ∧ process.AllInvalid process.tempData.pageCount
  | .receiving =>
      process.mchNum = 2 → process.tempData.pageCount = count ∧
        process.AllInvalid process.tempData.pageCount
  | _ => True

theorem Process.Untaken.table {process : Process} (untaken : process.Untaken) (count : Int) :
    SecondTable count process := by
  unfold Process.Untaken at untaken
  unfold SecondTable
  cases here : process.server with
  | mapping | creating | registering =>
      rw [here] at untaken
      exact untaken.elim
  | initialising page =>
      rw [here] at untaken
      exact untaken.elim
  | receiving =>
      rw [here] at untaken
      exact fun second => absurd second untaken
  | _ => trivial

/-- What a process that is not machine 1 has come to, with the peer's struct. -/
structure Opened (first second : Process) (toFirst toSecond : List ProcInfo) : Prop where
  silent : toFirst = []
  firstTable : FirstTable first
  secondTable : SecondTable first.sendData.pageCount second
  unsent : ¬ first.client.Sends → toSecond = [] ∧ second.Untaken
  flight : toSecond = [] ∨ (toSecond = [first.sendData] ∧ second.Untaken)
  tested : second.server = .receiving → second.mchNum ≠ 0
  waited : second.client = .starting ∨ second.client = .menu → second.server = .receiving

/-- Unless the peer of `x` is machine 1. -/
structure Openable (x : Host) (s : Pair) : Prop where
  consistent : s.Consistent
  opened : (s.process x.peer).mchNum ≠ 1 →
    Opened (s.process x) (s.process x.peer) (s.inbox x) (s.inbox x.peer)

theorem Unstarted.openable {s : Pair} (unstarted : Unstarted s) (x : Host) : Openable x s where
  consistent := unstarted.consistent
  opened _other :=
    { silent := unstarted.inboxEmpty x
      firstTable := by
        unfold FirstTable
        rw [unstarted.client x]
        trivial
      secondTable := by
        unfold SecondTable
        rw [unstarted.server x.peer]
        trivial
      unsent := by
        intro _unsent
        refine ⟨unstarted.inboxEmpty x.peer, ?_⟩
        unfold Process.Untaken
        rw [unstarted.server x.peer]
        trivial
      flight := .inl (unstarted.inboxEmpty x.peer)
      tested := by
        rw [unstarted.server x.peer]
        exact ServerPoint.noConfusion
      waited := by
        rw [unstarted.client x.peer]
        rintro (here | here) <;> cases here }

section Moves

variable {first second after : Process} {toFirst toSecond rest sent : List ProcInfo}
variable {connected listening : Bool} {marks : List Mark}

/-- Machine 2's client thread never looks at the table that machine 1's does. -/
theorem FirstTable.of_second {process : Process} (consistent : process.Consistent)
    (role : process.mchNum = 2) : FirstTable process := by
  have client := consistent.client
  unfold FirstTable
  cases here : process.client with
  | mapping | sending | creating | registering =>
      rw [here] at client
      exact (roles_differ client role).elim
  | initialising count =>
      rw [here] at client
      exact (roles_differ client role).elim
  | starting | menu => exact fun one => (roles_differ one role).elim
  | _ => trivial

theorem Opened.ownServer (opened : Opened first second toFirst toSecond)
    (consistent : first.Consistent) {action : ServerAction}
    (move : ServerMove connected first action after marks) (unread : action ≠ .read) :
    Opened after second toFirst toSecond := by
  have fits := move.consistent consistent
  have server := consistent.server
  have role := move.role
  have send : after.sendData = first.sendData := by
    cases move with
    | _ => rfl
  have table : FirstTable after := by
    cases move with
    | bind _ | listen _ | accept _ _ | awaitHandshake _ _ | skipHandshake _ _ =>
        exact opened.firstTable
    | takeHandshake _ _ => exact absurd rfl unread
    | takeMessage _ _ _ => exact absurd rfl unread
    | map here _ _ =>
        rw [here] at server
        exact .of_second fits server.1
    | initialisePage _ here _ | initialised _ here _ =>
        rw [here] at server
        exact .of_second fits server.1
    | create here _ =>
        rw [here] at server
        exact .of_second fits server.1
    | register here =>
        rw [here] at server
        exact .of_second fits server.1
  refine ⟨opened.silent, table, ?_, ?_, ?_, opened.tested, opened.waited⟩
  · rw [send]
    exact opened.secondTable
  · rw [role.1]
    exact opened.unsent
  · rw [send]
    exact opened.flight

/-- Until it sends, machine 1 finds that nothing has been sent. -/
theorem Opened.before (opened : Opened first second toFirst toSecond)
    (unsent : ¬ first.client.Sends) (table : FirstTable after) :
    Opened after second toFirst toSecond := by
  obtain ⟨empty, untaken⟩ := opened.unsent unsent
  exact ⟨opened.silent, table, untaken.table _, fun _ => ⟨empty, untaken⟩, .inl empty,
    opened.tested, opened.waited⟩

/-- A step of the client of machine 1 that sends nothing and leaves what it sent alone. -/
theorem Opened.later (opened : Opened first second toFirst toSecond)
    (table : FirstTable after) (send : after.sendData = first.sendData)
    (stays : after.client.Sends) : Opened after second toFirst toSecond := by
  refine ⟨opened.silent, table, ?_, fun unsent => absurd stays unsent, ?_, opened.tested,
    opened.waited⟩
  · rw [send]
    exact opened.secondTable
  · rw [send]
    exact opened.flight

theorem Opened.ownClient (opened : Opened first second toFirst toSecond)
    (consistent : first.Consistent) {action : ClientAction}
    (move : ClientMove listening first action after marks)
    (sends : sent = [] ∨ (first.client = .sending ∧ sent = [first.sendData]))
    (quiet : ∀ data, action ≠ .command data)
    (ended : ∀ count, first.client = .initialising count → after.client = .sending →
      ¬ count < first.tempData.pageCount) :
    Opened after second toFirst (toSecond ++ sent) := by
  have table := opened.firstTable
  have client := consistent.client
  unfold FirstTable at table
  have silent : first.client ≠ .sending → sent = [] := by
    intro elsewhere
    rcases sends with none | ⟨here, _one⟩
    · exact none
    · exact absurd here elsewhere
  cases move with
  | connect here _ | refused here _ =>
      rw [silent (by rw [here]; exact ClientPoint.noConfusion), List.append_nil]
      exact opened.before (by rw [here]; exact id) trivial
  | second here | first here =>
      rw [silent (by rw [here]; exact ClientPoint.noConfusion), List.append_nil]
      exact opened.before (by rw [here]; exact id) trivial
  | reached here | retry here =>
      rw [silent (by rw [here]; exact ClientPoint.noConfusion), List.append_nil]
      exact opened.before (by rw [here]; exact id) trivial
  | ask here _ | wait here _ | unmapped here _ =>
      rw [silent (by rw [here]; exact ClientPoint.noConfusion), List.append_nil]
      exact opened.before (by rw [here]; exact id) trivial
  | enterCount here count =>
      rw [silent (by rw [here]; exact ClientPoint.noConfusion), List.append_nil]
      exact opened.before (by rw [here]; exact id) rfl
  | map here base =>
      rw [silent (by rw [here]; exact ClientPoint.noConfusion), List.append_nil]
      rw [here] at table
      refine opened.before (by rw [here]; exact id) ⟨table, ?_⟩
      intro page lower upper
      exact absurd lower (Int.not_le.mpr upper)
  | initialisePage count here =>
      rw [silent (by rw [here]; exact ClientPoint.noConfusion), List.append_nil]
      rw [here] at table
      refine opened.before (by rw [here]; exact id) ⟨table.1, ?_⟩
      intro page lower upper
      change Function.update first.listMSI count .invalid page = .invalid
      by_cases same : page = count
      · rw [same, Function.update_self]
      · rw [Function.update_of_ne same]
        exact table.2 page lower (by omega)
  | initialised count here =>
      rw [silent (by rw [here]; exact ClientPoint.noConfusion), List.append_nil]
      rw [here] at table
      have done := ended count here rfl
      refine opened.before (by rw [here]; exact id) ⟨table.1, ?_⟩
      intro page lower upper
      change page < first.tempData.pageCount at upper
      exact table.2 page lower (by omega)
  | send here =>
      rw [here] at table
      obtain ⟨empty, untaken⟩ := opened.unsent (by rw [here]; exact id)
      refine ⟨opened.silent, table, opened.secondTable, fun unsent => absurd trivial unsent, ?_,
        opened.tested, opened.waited⟩
      rw [empty]
      rcases sends with none | ⟨_here, one⟩
      · exact .inl none
      · exact .inr ⟨one, untaken⟩
  | create here uffd =>
      rw [silent (by rw [here]; exact ClientPoint.noConfusion), List.append_nil]
      rw [here] at table
      exact opened.later table rfl trivial
  | register here =>
      rw [silent (by rw [here]; exact ClientPoint.noConfusion), List.append_nil]
      rw [here] at table
      exact opened.later (fun _ => table) rfl trivial
  | mapped here _ =>
      rw [silent (by rw [here]; exact ClientPoint.noConfusion), List.append_nil]
      rw [here] at client
      obtain ⟨empty, untaken⟩ := opened.unsent (by rw [here]; exact id)
      exact ⟨opened.silent, fun one => (roles_differ one client).elim, opened.secondTable,
        fun unsent => absurd trivial unsent, .inl empty, opened.tested, opened.waited⟩
  | startHandler here =>
      rw [silent (by rw [here]; exact ClientPoint.noConfusion), List.append_nil]
      rw [here] at table
      exact opened.later table rfl trivial
  | command _ data => exact absurd rfl (quiet data)

/-- The peer's receive loop finds nothing to take. -/
theorem Opened.nothing_taken (opened : Opened first second toFirst toSecond)
    (consistent : second.Consistent) (other : second.mchNum ≠ 1)
    (receiving : second.server = .receiving) : toSecond = [] := by
  rcases opened.flight with empty | ⟨_one, untaken⟩
  · exact empty
  · have set := opened.tested receiving
    have client := consistent.client
    unfold Process.Untaken at untaken
    rw [receiving] at untaken
    -- the role is neither unset, nor 1, nor 2
    cases here : second.client with
    | start | connected | refused =>
        rw [here] at client
        exact absurd client set
    | decided | starting | menu =>
        rw [here] at client
        rcases client with one | two
        · exact absurd one other
        · first
            | exact absurd two untaken
            | exact absurd two.1 untaken
    | waiting =>
        rw [here] at client
        exact absurd client untaken
    | initialising count =>
        rw [here] at client
        exact absurd client other
    | _ =>
        rw [here] at client
        exact absurd client other

/-- The peer's server thread on its way to the handshake, or past it without one. -/
theorem Opened.untakenServer (opened : Opened first second toFirst toSecond)
    (untaken : after.Untaken) (tested : after.server = .receiving → after.mchNum ≠ 0)
    (waited : after.client = .starting ∨ after.client = .menu → after.server = .receiving) :
    Opened first after toFirst toSecond where
  silent := opened.silent
  firstTable := opened.firstTable
  secondTable := untaken.table _
  unsent unsent := ⟨(opened.unsent unsent).1, untaken⟩
  flight := opened.flight.imp_right (fun flight => ⟨flight.1, untaken⟩)
  tested := tested
  waited := waited

/-- The peer's server thread once it has the handshake. -/
theorem Opened.takenServer (opened : Opened first second toFirst toSecond)
    (taken : ¬ second.Untaken) (table : SecondTable first.sendData.pageCount after)
    (tested : after.server = .receiving → after.mchNum ≠ 0)
    (waited : after.client = .starting ∨ after.client = .menu → after.server = .receiving) :
    Opened first after toFirst toSecond where
  silent := opened.silent
  firstTable := opened.firstTable
  secondTable := table
  unsent unsent := absurd (opened.unsent unsent).2 taken
  flight := .inl (opened.flight.resolve_right (fun flight => taken flight.2))
  tested := tested
  waited := waited

theorem Opened.peerServer (opened : Opened first second toFirst toSecond)
    (consistent : second.Consistent) (other : second.mchNum ≠ 1) {action : ServerAction}
    (move : ServerMove connected second action after marks)
    (inTime : action = .testRole → second.mchNum ≠ 0)
    (taken : (action = .read ∧ ∃ data, toSecond = data :: rest ∧ after.tempData = data) ∨
      (action ≠ .read ∧ rest = toSecond)) :
    Opened first after toFirst rest := by
  have table := opened.secondTable
  have server := consistent.server
  unfold SecondTable at table
  have same : action ≠ .read → rest = toSecond := by
    intro unread
    exact (taken.resolve_left (fun read => unread read.1)).2
  -- the client of machine 2 is past its loop only once the server thread receives
  have early : second.server ≠ .receiving →
      ¬ (second.client = .starting ∨ second.client = .menu) :=
    fun elsewhere past => elsewhere (opened.waited past)
  cases move with
  | bind here | listen here | accept here _ | awaitHandshake here _ =>
      rw [same ServerAction.noConfusion]
      refine opened.untakenServer trivial ServerPoint.noConfusion ?_
      intro past
      exact absurd past (early (by rw [here]; exact ServerPoint.noConfusion))
  | skipHandshake here role =>
      rw [same ServerAction.noConfusion]
      exact opened.untakenServer role (fun _ => inTime rfl) (fun _ => rfl)
  | takeHandshake here recvData =>
      obtain ⟨data, oldest, held⟩ := (taken.resolve_right (fun read => read.1 rfl)).2
      have sends : first.client.Sends := by
        by_contra unsent
        rw [(opened.unsent unsent).1] at oldest
        cases oldest
      obtain ⟨one, _untaken⟩ := opened.flight.resolve_left (by rw [oldest]; simp)
      rw [oldest] at one
      obtain ⟨rfl, rfl⟩ := List.cons.inj one
      refine ⟨opened.silent, opened.firstTable, ?_, fun unsent => absurd sends unsent, .inl rfl,
        ServerPoint.noConfusion, ?_⟩
      · change recvData.pageCount = first.sendData.pageCount
        rw [← held]
      · intro past
        exact absurd past (early (by rw [here]; exact ServerPoint.noConfusion))
  | takeMessage here recvData listMSI =>
      obtain ⟨data, oldest, _held⟩ := (taken.resolve_right (fun read => read.1 rfl)).2
      rw [opened.nothing_taken consistent other here] at oldest
      cases oldest
  | map here base _ =>
      rw [same ServerAction.noConfusion]
      rw [here] at table
      refine opened.takenServer (by unfold Process.Untaken; rw [here]; exact id) ⟨table, ?_⟩
        ServerPoint.noConfusion ?_
      · intro page lower upper
        exact absurd lower (Int.not_le.mpr upper)
      · intro past
        exact absurd past (early (by rw [here]; exact ServerPoint.noConfusion))
  | initialisePage count here _ =>
      rw [same ServerAction.noConfusion]
      rw [here] at table
      refine opened.takenServer (by unfold Process.Untaken; rw [here]; exact id)
        ⟨table.1, ?_⟩ ServerPoint.noConfusion ?_
      · intro page lower upper
        change Function.update second.listMSI count .invalid page = .invalid
        by_cases at' : page = count
        · rw [at', Function.update_self]
        · rw [Function.update_of_ne at']
          exact table.2 page lower (by omega)
      · intro past
        exact absurd past (early (by rw [here]; exact ServerPoint.noConfusion))
  | initialised count here done =>
      rw [same ServerAction.noConfusion]
      rw [here] at table
      refine opened.takenServer (by unfold Process.Untaken; rw [here]; exact id)
        ⟨table.1, ?_⟩ ServerPoint.noConfusion ?_
      · intro page lower upper
        change page < second.tempData.pageCount at upper
        exact table.2 page lower (by omega)
      · intro past
        exact absurd past (early (by rw [here]; exact ServerPoint.noConfusion))
  | create here uffd =>
      rw [same ServerAction.noConfusion]
      rw [here] at table
      refine opened.takenServer (by unfold Process.Untaken; rw [here]; exact id) table
        ServerPoint.noConfusion ?_
      intro past
      exact absurd past (early (by rw [here]; exact ServerPoint.noConfusion))
  | register here =>
      rw [same ServerAction.noConfusion]
      rw [here] at table server
      refine opened.takenServer (by unfold Process.Untaken; rw [here]; exact id)
        (fun _ => table) (fun _ => ?_) (fun _ => rfl)
      change second.mchNum ≠ 0
      rw [server.1]
      decide

/-- A process that has not become machine 1 was not machine 1 before. -/
theorem ClientMove.not_first {action : ClientAction}
    (move : ClientMove listening second action after marks) (consistent : second.Consistent)
    (other : after.mchNum ≠ 1) :
    second.mchNum ≠ 1 ∧ (after.mchNum = second.mchNum ∨ second.mchNum = 0) := by
  have client := consistent.client
  cases move with
  | second here =>
      rw [here] at client
      have unset : second.mchNum = 0 := client
      exact ⟨by omega, .inr unset⟩
  | first here => exact absurd rfl other
  | _ => exact ⟨other, .inl rfl⟩

theorem Opened.peerClient (opened : Opened first second toFirst toSecond)
    (consistent : second.Consistent) (other : after.mchNum ≠ 1) {action : ClientAction}
    (move : ClientMove listening second action after marks)
    (inTime : action = .testAddr → ¬ second.server.SettingUp)
    (quiet : ∀ data, action ≠ .command data)
    (sends : sent = [] ∨ (second.client = .sending ∧ sent = [second.sendData])) :
    Opened first after (toFirst ++ sent) toSecond := by
  have client := consistent.client
  obtain ⟨before, role⟩ := move.not_first consistent other
  have silent : sent = [] := by
    rcases sends with none | ⟨here, _one⟩
    · exact none
    · rw [here] at client
      exact absurd client before
  have server : after.server = second.server := move.server
  have same : after.tempData = second.tempData ∧ after.listMSI = second.listMSI := by
    cases move with
    | enterCount here _ =>
        rw [here] at client
        exact absurd client before
    | initialisePage _ here =>
        rw [here] at client
        exact absurd client before
    | _ => exact ⟨rfl, rfl⟩
  -- a role that is set now was not tested yet
  have receiving : second.server = .receiving → after.mchNum = second.mchNum := by
    intro here
    exact role.resolve_right (opened.tested here)
  have untaken : second.Untaken → after.Untaken := by
    intro earlier
    unfold Process.Untaken at earlier ⊢
    rw [server]
    cases here : second.server with
    | receiving =>
        rw [here] at earlier
        rw [receiving here]
        exact earlier
    | _ =>
        rw [here] at earlier
        exact earlier
  refine ⟨?_, opened.firstTable, ?_, ?_, ?_, ?_, ?_⟩
  · rw [silent, List.append_nil]
    exact opened.silent
  · have table := opened.secondTable
    unfold SecondTable at table ⊢
    unfold Process.AllInvalid at table ⊢
    rw [server, same.1, same.2]
    cases here : second.server with
    | receiving =>
        rw [here] at table
        rw [receiving here]
        exact table
    | _ =>
        rw [here] at table
        exact table
  · intro unsent
    exact ⟨(opened.unsent unsent).1, untaken (opened.unsent unsent).2⟩
  · exact opened.flight.imp_right (fun flight => ⟨flight.1, untaken flight.2⟩)
  · rw [server]
    intro here
    rw [receiving here]
    exact opened.tested here
  · rw [server]
    have fits := consistent.server
    cases move with
    | mapped here mapped =>
        intro _past
        rw [here] at client
        have two : second.mchNum = 2 := client
        have outside := inTime rfl
        cases place : second.server with
        | receiving => rfl
        | initialising count =>
            rw [place] at outside
            exact absurd trivial outside
        | creating | registering =>
            rw [place] at outside
            exact absurd trivial outside
        | handshake | mapping =>
            rw [place] at fits
            exact absurd fits.2 mapped
        | _ =>
            rw [place] at fits
            exact absurd (fits (by rw [two]; decide)) mapped
    | register here =>
        rw [here] at client
        exact absurd client before
    | startHandler here => exact fun _past => opened.waited (.inl here)
    | command _ data => exact absurd rfl (quiet data)
    | _ =>
        rintro (past | past) <;> cases past

end Moves

/-! ### Runs -/

section Runs

variable {x : Host} {start s after final : Pair} {action : Action}
variable {actions : List Action} {marks : List (Host × Mark)}

theorem Opens.uncommanded {z : Host} {action : ClientAction}
    (opens : Opens x s (.client z action)) (data : ProcInfo) : action ≠ .command data := by
  rintro rfl
  exact opens.2

theorem Openable.step (openable : Openable x s) (opens : Opens x.peer s action)
    (move : StartMove s after action) : Openable x after := by
  refine ⟨move.consistent openable.consistent, ?_⟩
  have consistent := openable.consistent.process
  intro other
  cases move with
  | server z action own move same otherInbox taken =>
      rcases Host.eq_or_eq_peer x z with rfl | rfl
      · rw [same] at other ⊢
        have opened := openable.opened other
        have unread : action ≠ .read := by
          rintro rfl
          obtain ⟨_read, data, oldest, _held⟩ := taken.resolve_right (fun read => read.1 rfl)
          rw [opened.silent] at oldest
          cases oldest
        rw [otherInbox, (taken.resolve_left (fun read => unread read.1)).2]
        exact opened.ownServer (consistent z) move unread
      · rw [Host.peer_peer] at same otherInbox move
        have role := move.role.2
        rw [role] at other
        rw [same, otherInbox]
        refine (openable.opened other).peerServer (consistent x.peer) other move ?_ taken
        rintro rfl
        exact opens.1 rfl
  | client z action own sent move same ownInbox posted sends ended =>
      have quiet := fun data => opens.uncommanded data
      have sent' : sent = [] ∨
          ((s.process z).client = .sending ∧ sent = [(s.process z).sendData]) := by
        rcases sends with none | ⟨sending | ⟨_menu, data, command⟩, _sends⟩
        · exact .inl none
        · exact .inr sending
        · exact absurd command (quiet data)
      rcases Host.eq_or_eq_peer x z with rfl | rfl
      · rw [same] at other ⊢
        rw [ownInbox, posted]
        exact (openable.opened other).ownClient (consistent z) move sent' quiet ended
      · rw [Host.peer_peer] at same posted move
        rw [same, ownInbox, posted]
        have before := (move.not_first (consistent x.peer) other).1
        refine (openable.opened before).peerClient (consistent x.peer) other move ?_ quiet sent'
        rintro rfl
        exact opens.1 rfl

/-- In start-up runs without commands that keep out of the two windows of machine 2: once
both processes are in their menus, one as machine 1 and the other as machine 2, they are in
the state that the runs of the protocol start from. -/
theorem startUp_cold (unstarted : Unstarted start)
    (run : Run startStep (Opens x.peer) start actions marks final)
    (first : (final.process x).mchNum = 1) (second : (final.process x.peer).mchNum = 2)
    (menus : final.AtMenus) {setup : Setup}
    (count : setup.pageCount = (final.process x).tempData.pageCount)
    (addr recvMessage : Host → Buffer) : Cold setup (final.system addr recvMessage) := by
  have openable : Openable x final := by
    refine run.invariant (Openable x) (unstarted.openable x) ?_
    intro before action after shown openable opens accepted
    exact openable.step opens (.of_step accepted)
  have other : (final.process x.peer).mchNum ≠ 1 := by
    rw [second]
    decide
  have opened := openable.opened other
  have receiving := opened.waited (.inr (menus x.peer))
  have ownTable := opened.firstTable
  unfold FirstTable at ownTable
  rw [menus x] at ownTable
  obtain ⟨sent, ownInvalid⟩ := ownTable first
  have peerTable := opened.secondTable
  unfold SecondTable at peerTable
  rw [receiving] at peerTable
  obtain ⟨got, peerInvalid⟩ := peerTable second
  have counts : ∀ z, (final.process z).tempData.pageCount = setup.pageCount := by
    intro z
    rcases Host.eq_or_eq_peer x z with rfl | rfl
    · exact count.symm
    · rw [got, sent, count]
  refine ⟨?_, counts, fun _ => rfl, ?_, fun _ => rfl⟩
  · intro z page inRange
    have upper : page < (final.process z).tempData.pageCount := by
      rw [counts z]
      exact inRange.2.1
    rcases Host.eq_or_eq_peer x z with rfl | rfl
    · exact ownInvalid page inRange.1 upper
    · exact peerInvalid page inRange.1 upper
  · intro z
    change final.inbox z = []
    rcases Host.eq_or_eq_peer x z with rfl | rfl
    · exact opened.silent
    · exact opened.nothing_taken (openable.consistent.process x.peer) other receiving

end Runs

def bothMenus : List Action :=
  orderlyStart ++ [.client .one (.create 4), .client .one .register, .client .one .startHandler]

theorem bothMenus_run : (launch (Opens .two) bothMenus).isSome = true := by decide

theorem bothMenus_atMenus :
    ((launch (Opens .two) bothMenus).get bothMenus_run).1.AtMenus := by
  intro x
  cases x with
  | one => decide
  | two => decide

theorem startUp_cold_bothMenus :
    Cold ⟨4096, by decide, 1⟩
      (((launch (Opens .two) bothMenus).get bothMenus_run).1.system (fun _ _ => 0)
        (fun _ _ => 0)) :=
  startUp_cold (x := .one) zeroPair_unstarted (launch_run _ bothMenus bothMenus_run) (by decide)
    (by decide) bothMenus_atMenus (by decide) _ _

end LKP.Dsm
