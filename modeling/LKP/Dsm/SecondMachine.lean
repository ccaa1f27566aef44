import LKP.Dsm.Roles

/-
A process that is or will be machine 2, and when it waits for ever.

It waits for `addr`, which its server thread sets once it has taken the peer's struct as
the handshake.  Two things make that wait endless: the peer becomes machine 2 as well, so
that nobody sends; or the server thread tested `mch_num` before the client thread had set
it, so that it takes no handshake.  Neither can be undone.
-/

set_option autoImplicit false

namespace LKP.Dsm

open TransitionRun

/-- The process is machine 2, or can only become machine 2. -/
def Process.Second (listening : Bool) (process : Process) : Prop :=
  match process.client with
  | .start => listening = true
  | .connected => True
  | .refused | .retrying => False
  | _ => process.mchNum = 2

def Pair.Second (s : Pair) (x : Host) : Prop :=
  (s.process x).Second (s.process x.peer).listens

/-- The server thread is in the receive loop and the region is not mapped. -/
def Process.Skipped (process : Process) : Prop :=
  process.server = .receiving ∧ process.addr = 0

/-- Nobody will send the handshake, or a machine 2 will not take it. -/
def Pair.Doomed (s : Pair) : Prop :=
  (∀ x, s.Second x) ∨ ∃ x, s.Second x ∧ (s.process x).Skipped

def Pair.AtMenus (s : Pair) : Prop := ∀ x, (s.process x).client = .menu

/-! ### What `mch_num` and `addr` say about the two threads -/

def ClientPoint.Fits (mchNum addr : Int) : ClientPoint → Prop
  | .start | .connected | .refused => mchNum = 0
  | .retrying | .counting | .mapping | .initialising _ | .sending | .creating
  | .registering => mchNum = 1
  | .decided => mchNum = 1 ∨ mchNum = 2
  | .waiting => mchNum = 2
  | .starting | .menu => mchNum = 1 ∨ (mchNum = 2 ∧ addr ≠ 0)

def ServerPoint.Fits (mchNum addr : Int) : ServerPoint → Prop
  | .start | .bound | .listening | .accepted => mchNum ≠ 1 → addr = 0
  | .handshake | .mapping => mchNum = 2 ∧ addr = 0
  | .initialising _ | .creating | .registering => mchNum = 2 ∧ addr ≠ 0
  | .receiving => mchNum = 0 → addr = 0

structure Process.Consistent (process : Process) : Prop where
  client : process.client.Fits process.mchNum process.addr
  server : process.server.Fits process.mchNum process.addr

def ClientPoint.Sends : ClientPoint → Prop
  | .creating | .registering | .starting | .menu => True
  | _ => False

/-- Structs in flight come from a client that has come as far as its `send`. -/
structure Pair.Consistent (s : Pair) : Prop where
  process : ∀ x, (s.process x).Consistent
  sent : ∀ x, s.inbox x.peer ≠ [] → (s.process x).client.Sends

theorem Unstarted.consistent {s : Pair} (unstarted : Unstarted s) : s.Consistent where
  process := by
    intro x
    constructor
    · rw [unstarted.client x]
      exact unstarted.mchNum x
    · rw [unstarted.server x]
      exact fun _ => unstarted.addr x
  sent := by
    intro x some
    exact absurd (unstarted.inboxEmpty x.peer) some

theorem ClientPoint.Fits.mapped {point : ClientPoint} {mchNum addr base : Int}
    (fits : point.Fits mchNum addr) (mapped : base ≠ 0) : point.Fits mchNum base := by
  cases point with
  | starting => exact fits.imp_right (fun second => ⟨second.1, mapped⟩)
  | menu => exact fits.imp_right (fun second => ⟨second.1, mapped⟩)
  | _ => exact fits

/-- The server thread of machine 1 does not depend on the mapping. -/
theorem ServerPoint.Fits.first {point : ServerPoint} {addr : Int}
    (fits : point.Fits 1 addr) (base : Int) : point.Fits 1 base := by
  cases point with
  | handshake => exact absurd fits.1 (by decide)
  | mapping => exact absurd fits.1 (by decide)
  | initialising count => exact absurd fits.1 (by decide)
  | creating => exact absurd fits.1 (by decide)
  | registering => exact absurd fits.1 (by decide)
  | receiving => exact fun unset => absurd unset (by decide)
  | _ => exact fun other => absurd rfl other

/-- The server thread of a process whose role is not set yet has not tested it, or never
will again. -/
theorem ServerPoint.Fits.assign {point : ServerPoint} {addr : Int}
    (fits : point.Fits 0 addr) (mchNum : Int) (set : mchNum ≠ 0) : point.Fits mchNum addr := by
  cases point with
  | handshake => exact absurd fits.1 (by decide)
  | mapping => exact absurd fits.1 (by decide)
  | initialising count => exact absurd fits.1 (by decide)
  | creating => exact absurd fits.1 (by decide)
  | registering => exact absurd fits.1 (by decide)
  | receiving => exact fun unset => absurd unset set
  | _ => exact fun _ => fits (by decide)

theorem roles_differ {mchNum : Int} (first : mchNum = 1) (second : mchNum = 2) : False := by
  omega

section Moves

variable {connected listening : Bool} {process after : Process} {marks : List Mark}

theorem ServerMove.consistent {action : ServerAction}
    (move : ServerMove connected process action after marks)
    (before : process.Consistent) : after.Consistent := by
  obtain ⟨client, server⟩ := before
  cases move with
  | bind here =>
      rw [here] at server
      exact ⟨client, server⟩
  | listen here =>
      rw [here] at server
      exact ⟨client, server⟩
  | accept here _connected =>
      rw [here] at server
      exact ⟨client, server⟩
  | awaitHandshake here role =>
      rw [here] at server
      exact ⟨client, role, server (by rw [role]; decide)⟩
  | skipHandshake here _role =>
      rw [here] at server
      exact ⟨client, fun unset => server (by rw [unset]; decide)⟩
  | takeHandshake here recvData =>
      rw [here] at server
      exact ⟨client, server⟩
  | takeMessage here recvData listMSI =>
      rw [here] at server
      refine ⟨client, ?_⟩
      rw [here]
      exact server
  | map here base mapped =>
      rw [here] at server
      exact ⟨client.mapped mapped, server.1, mapped⟩
  | initialisePage count here _more =>
      rw [here] at server
      exact ⟨client, server⟩
  | initialised count here _done =>
      rw [here] at server
      exact ⟨client, server⟩
  | create here uffd =>
      rw [here] at server
      exact ⟨client, server⟩
  | register here =>
      rw [here] at server
      refine ⟨client, fun unset => ?_⟩
      rw [server.1] at unset
      cases unset

theorem ClientMove.consistent {action : ClientAction}
    (move : ClientMove listening process action after marks)
    (before : process.Consistent) : after.Consistent := by
  obtain ⟨client, server⟩ := before
  cases move with
  | connect here _heard =>
      rw [here] at client
      exact ⟨client, server⟩
  | refused here _unheard =>
      rw [here] at client
      exact ⟨client, server⟩
  | second here =>
      rw [here] at client
      rw [show process.mchNum = 0 from client] at server
      exact ⟨.inr rfl, server.assign 2 (by decide)⟩
  | first here =>
      rw [here] at client
      rw [show process.mchNum = 0 from client] at server
      exact ⟨rfl, server.assign 1 (by decide)⟩
  | reached here =>
      rw [here] at client
      exact ⟨.inl client, server⟩
  | retry here =>
      rw [here] at client
      exact ⟨client, server⟩
  | ask here role => exact ⟨role, server⟩
  | wait here role =>
      rw [here] at client
      exact ⟨client.resolve_left role, server⟩
  | enterCount here count =>
      rw [here] at client
      exact ⟨client, server⟩
  | map here base =>
      rw [here] at client
      refine ⟨client, ?_⟩
      rw [show process.mchNum = 1 from client] at server
      change process.server.Fits process.mchNum base
      rw [show process.mchNum = 1 from client]
      exact server.first base
  | initialisePage count here =>
      rw [here] at client
      exact ⟨client, server⟩
  | initialised count here =>
      rw [here] at client
      exact ⟨client, server⟩
  | send here =>
      rw [here] at client
      exact ⟨client, server⟩
  | create here uffd =>
      rw [here] at client
      exact ⟨client, server⟩
  | register here =>
      rw [here] at client
      exact ⟨.inl client, server⟩
  | unmapped here _null =>
      rw [here] at client
      exact ⟨client, server⟩
  | mapped here mapped =>
      rw [here] at client
      exact ⟨.inr ⟨client, mapped⟩, server⟩
  | startHandler here =>
      rw [here] at client
      exact ⟨client, server⟩
  | command here data => exact ⟨client, server⟩

theorem ClientMove.server {action : ClientAction}
    (move : ClientMove listening process action after marks) :
    after.server = process.server := by
  cases move with
  | _ => rfl

theorem ClientMove.sends {action : ClientAction}
    (move : ClientMove listening process action after marks)
    (sends : process.client.Sends) : after.client.Sends := by
  cases move with
  | create here uffd => trivial
  | register here => trivial
  | startHandler here => trivial
  | send here => trivial
  | mapped here _mapped => trivial
  | command here data => exact sends
  | connect here _other | refused here _other | ask here _other | wait here _other
  | enterCount here _other | map here _other | unmapped here _other =>
      rw [here] at sends
      exact sends.elim
  | second here | first here | reached here | retry here | initialisePage _count here
  | initialised _count here =>
      rw [here] at sends
      exact sends.elim

theorem Process.Second.of_same (second : process.Second listening)
    (client : after.client = process.client) (role : after.mchNum = process.mchNum) :
    after.Second listening := by
  unfold Process.Second at second ⊢
  rwa [client, role]

theorem Process.Second.more_listening (second : process.Second listening) {later : Bool}
    (more : listening = true → later = true) : process.Second later := by
  unfold Process.Second at second ⊢
  split at second
  · exact more second
  · trivial
  · exact second.elim
  · exact second.elim
  · exact second

theorem Process.Second.of_started (second : process.Second listening)
    (started : process.client ≠ .start) (later : Bool) :
    process.Second later := by
  unfold Process.Second at second ⊢
  split at second
  · exact absurd ‹_› started
  · trivial
  · exact second.elim
  · exact second.elim
  · exact second

theorem ClientMove.staysSecond {action : ClientAction}
    (move : ClientMove listening process action after marks)
    (second : process.Second listening) : after.Second listening := by
  unfold Process.Second at second ⊢
  cases move with
  | connect here _heard => trivial
  | refused here unheard =>
      rw [here] at second
      rw [show listening = true from second] at unheard
      cases unheard
  | second here => rfl
  | first here | reached here | retry here =>
      rw [here] at second
      exact second.elim
  | enterCount here _ | map here _ | create here _ | send here | register here
  | startHandler here =>
      rw [here] at second
      exact second
  | unmapped here _ | mapped here _ | ask here _ | wait here _ =>
      rw [here] at second
      exact second
  | initialisePage _ here | initialised _ here =>
      rw [here] at second
      exact second
  | command here data => exact second

theorem ClientMove.wasSecond {action : ClientAction}
    (move : ClientMove listening process action after marks)
    (consistent : process.Consistent) (second : after.Second listening) :
    process.Second listening := by
  have client := consistent.client
  unfold Process.Second at second ⊢
  cases move with
  | connect here heard =>
      rw [here]
      exact heard
  | refused here _unheard => exact second.elim
  | second here =>
      rw [here]
      trivial
  | first here | retry here => exact second.elim
  | reached here =>
      rw [here] at client
      exact (roles_differ client second).elim
  | enterCount here _ | map here _ | create here _ | send here | register here
  | startHandler here =>
      rw [here]
      exact second
  | unmapped here _ | mapped here _ | ask here _ | wait here _ =>
      rw [here]
      exact second
  | initialisePage _ here | initialised _ here =>
      rw [here]
      exact second
  | command here data => exact second

/-- A second machine without a mapping is not in its menu and has sent nothing. -/
theorem Process.Second.unsent (second : process.Second listening)
    (consistent : process.Consistent) (null : process.addr = 0) :
    ¬ process.client.Sends ∧ process.client ≠ .sending := by
  have client := consistent.client
  unfold Process.Second at second
  rw [null] at client
  cases here : process.client with
  | sending =>
      rw [here] at second client
      exact (roles_differ client second).elim
  | creating | registering =>
      rw [here] at second client
      exact (roles_differ client second).elim
  | starting | menu =>
      rw [here] at second client
      rcases client with first | mapped
      · exact (roles_differ first second).elim
      · exact absurd rfl mapped.2
  | _ => exact ⟨id, ClientPoint.noConfusion⟩

/-- A second machine's client never maps. -/
theorem ClientMove.addr_of_second {action : ClientAction}
    (move : ClientMove listening process action after marks)
    (second : process.Second listening) (consistent : process.Consistent) :
    after.addr = process.addr := by
  cases move with
  | map here base =>
      have client := consistent.client
      unfold Process.Second at second
      rw [here] at second client
      exact (roles_differ client second).elim
  | _ => rfl

theorem Process.Consistent.unset_addr (consistent : process.Consistent)
    (unset : process.mchNum = 0) : process.addr = 0 ∧ process.server ≠ .mapping := by
  have server := consistent.server
  rw [unset] at server
  cases here : process.server with
  | handshake | mapping =>
      rw [here] at server
      exact absurd server.1 (by decide)
  | initialising count =>
      rw [here] at server
      exact absurd server.1 (by decide)
  | creating | registering =>
      rw [here] at server
      exact absurd server.1 (by decide)
  | receiving =>
      rw [here] at server
      exact ⟨server rfl, ServerPoint.noConfusion⟩
  | _ =>
      rw [here] at server
      exact ⟨server (by decide), ServerPoint.noConfusion⟩

end Moves

/-! ### Structs and steps -/

theorem serverStep_inbox {connected : Bool} {inbox rest : List ProcInfo}
    {process after : Process} {action : ServerAction} {marks : List Mark}
    (accepted : serverStep connected inbox process action = some (after, rest, marks)) :
    (action = .read ∧ ∃ data, inbox = data :: rest ∧ after.tempData = data) ∨
      (action ≠ .read ∧ rest = inbox) := by
  cases action with
  | read =>
      left
      simp only [serverStep] at accepted
      split at accepted
      · cases accepted
      · split at accepted
        · cases accepted
          exact ⟨rfl, _, rfl, rfl⟩
        · split at accepted
          · cases accepted
            exact ⟨rfl, _, rfl, rfl⟩
          · cases accepted
  | initialise =>
      right
      simp only [serverStep] at accepted
      split at accepted
      · split at accepted <;> cases accepted <;> exact ⟨by decide, rfl⟩
      · cases accepted
  | _ =>
      right
      simp only [serverStep] at accepted
      split at accepted
      · cases accepted
        exact ⟨ServerAction.noConfusion, rfl⟩
      · cases accepted

theorem clientStep_sent {listening : Bool} {process after : Process} {action : ClientAction}
    {sent : List ProcInfo} {marks : List Mark}
    (accepted : clientStep listening process action = some (after, sent, marks)) :
    sent = [] ∨ (((process.client = .sending ∧ sent = [process.sendData]) ∨
      (process.client = .menu ∧ ∃ data, action = .command data)) ∧ after.client.Sends) := by
  cases action with
  | send =>
      simp only [clientStep] at accepted
      split at accepted
      · rename_i here
        cases accepted
        exact .inr ⟨.inl ⟨here, rfl⟩, trivial⟩
      · cases accepted
  | command data =>
      simp only [clientStep] at accepted
      split at accepted
      · rename_i here
        cases accepted
        exact .inr ⟨.inr ⟨here, data, rfl⟩, by rw [here]; trivial⟩
      · cases accepted
  | assignRole =>
      simp only [clientStep] at accepted
      split at accepted
      · cases accepted
        exact .inl rfl
      · split at accepted <;> cases accepted
        exact .inl rfl
  | initialise =>
      simp only [clientStep] at accepted
      split at accepted
      · split at accepted <;> cases accepted <;> exact .inl rfl
      · cases accepted
  | _ =>
      simp only [clientStep] at accepted
      split at accepted
      · cases accepted
        exact .inl rfl
      · cases accepted

/-- The loop over the table ends at the page count. -/
theorem clientStep_ended {listening : Bool} {process after : Process} {action : ClientAction}
    {sent : List ProcInfo} {marks : List Mark}
    (accepted : clientStep listening process action = some (after, sent, marks)) {count : Int}
    (here : process.client = .initialising count) (ended : after.client = .sending) :
    ¬ count < process.tempData.pageCount := by
  cases action with
  | initialise =>
      intro more
      simp only [clientStep, here, if_pos more, Option.some.injEq, Prod.mk.injEq] at accepted
      obtain ⟨rfl, _sent, _marks⟩ := accepted
      cases ended
  | _ => simp [clientStep, here] at accepted

inductive StartMove (s after : Pair) : Action → Prop
  | server (x : Host) (action : ServerAction) (marks : List Mark)
      (move : ServerMove (s.process x.peer).connects (s.process x) action (after.process x)
        marks)
      (other : after.process x.peer = s.process x.peer)
      (otherInbox : after.inbox x.peer = s.inbox x.peer)
      (taken : (action = .read ∧ ∃ data, s.inbox x = data :: after.inbox x ∧
          (after.process x).tempData = data) ∨
        (action ≠ .read ∧ after.inbox x = s.inbox x)) :
      StartMove s after (.server x action)
  | client (x : Host) (action : ClientAction) (marks : List Mark) (sent : List ProcInfo)
      (move : ClientMove (s.process x.peer).listens (s.process x) action (after.process x)
        marks)
      (other : after.process x.peer = s.process x.peer)
      (ownInbox : after.inbox x = s.inbox x)
      (posted : after.inbox x.peer = s.inbox x.peer ++ sent)
      (sends : sent = [] ∨
        ((((s.process x).client = .sending ∧ sent = [(s.process x).sendData]) ∨
          ((s.process x).client = .menu ∧ ∃ data, action = .command data)) ∧
          (after.process x).client.Sends))
      (ended : ∀ count, (s.process x).client = .initialising count →
        (after.process x).client = .sending → ¬ count < (s.process x).tempData.pageCount) :
      StartMove s after (.client x action)

theorem StartMove.of_step {s after : Pair} {action : Action} {marks : List (Host × Mark)}
    (accepted : startStep s action = some (after, marks)) : StartMove s after action := by
  have other := startStep_peer accepted
  cases action with
  | server x action =>
      obtain ⟨own, move, _marks⟩ := startStep_server accepted
      simp only [startStep] at accepted
      split at accepted
      · cases accepted
      · rename_i process rest said moved
        cases accepted
        refine .server x action own move other (Function.update_of_ne (Host.peer_ne x) ..) ?_
        have taken := serverStep_inbox moved
        simp only [Function.update_self]
        change _ ∨ _
        rw [show (s.put x process).process x = process from s.put_self ..]
        exact taken
  | client x action =>
      obtain ⟨own, move, _marks⟩ := startStep_client accepted
      simp only [startStep] at accepted
      split at accepted
      · cases accepted
      · rename_i process sent said moved
        cases accepted
        refine .client x action own sent move other (Function.update_of_ne (Host.ne_peer x) ..)
          (Function.update_self ..) ?_ ?_
        · have sends := clientStep_sent moved
          change sent = [] ∨ (_ ∧ ((s.put x process).process x).client.Sends)
          rw [s.put_self]
          exact sends
        · intro count
          change _ → ((s.put x process).process x).client = .sending → _
          rw [s.put_self]
          exact clientStep_ended moved

section Steps

variable {s after : Pair} {action : Action}

theorem StartMove.consistent (move : StartMove s after action) (before : s.Consistent) :
    after.Consistent := by
  cases move with
  | server x action marks move other otherInbox taken =>
      constructor
      · intro z
        rcases Host.eq_or_eq_peer x z with rfl | rfl
        · exact move.consistent (before.process z)
        · rw [other]
          exact before.process _
      · intro z some
        rcases Host.eq_or_eq_peer x z with rfl | rfl
        · rw [otherInbox] at some
          rw [move.role.1]
          exact before.sent z some
        · rw [other]
          apply before.sent x.peer
          rw [Host.peer_peer] at some ⊢
          rcases taken with ⟨_read, data, inbox, _held⟩ | ⟨_other, same⟩
          · rw [inbox]
            exact List.cons_ne_nil _ _
          · rwa [same] at some
  | client x action marks sent move other ownInbox posted sends _ended =>
      constructor
      · intro z
        rcases Host.eq_or_eq_peer x z with rfl | rfl
        · exact move.consistent (before.process z)
        · rw [other]
          exact before.process _
      · intro z some
        rcases Host.eq_or_eq_peer x z with rfl | rfl
        · rcases sends with none | ⟨_from, sends⟩
          · rw [posted, none, List.append_nil] at some
            exact move.sends (before.sent z some)
          · exact sends
        · rw [other]
          apply before.sent x.peer
          rw [Host.peer_peer] at some ⊢
          rwa [ownInbox] at some

/-- A process that is or will be machine 2 stays that. -/
theorem StartMove.second (move : StartMove s after action) (z : Host) (second : s.Second z) :
    after.Second z := by
  unfold Pair.Second at second ⊢
  cases move with
  | server x action marks move other _otherInbox _taken =>
      rcases Host.eq_or_eq_peer x z with rfl | rfl
      · rw [other]
        exact second.of_same move.role.1 move.role.2
      · rw [other]
        apply second.more_listening
        intro listening
        rw [Host.peer_peer] at listening ⊢
        rcases move.listens with ⟨_listen, _before, listens⟩ | ⟨_quiet, listens⟩
        · exact listens
        · rw [listens]
          exact listening
  | client x action marks sent move other _ownInbox _posted _sends _ended =>
      rcases Host.eq_or_eq_peer x z with rfl | rfl
      · rw [other]
        exact move.staysSecond second
      · rw [other]
        apply second.more_listening
        intro listening
        rw [Host.peer_peer] at listening ⊢
        rwa [move.listens]

end Steps

/-! ### Two second machines -/

structure Pair.Quiet (s : Pair) : Prop where
  unmapped : ∀ x, (s.process x).addr = 0
  notMapping : ∀ x, (s.process x).server ≠ .mapping
  empty : ∀ x, s.inbox x = []

/-- Two second machines have never heard of each other. -/
structure Pair.Sound (s : Pair) : Prop where
  consistent : s.Consistent
  quiet : (∀ x, s.Second x) → s.Quiet

theorem Unstarted.sound {s : Pair} (unstarted : Unstarted s) : s.Sound where
  consistent := unstarted.consistent
  quiet _both :=
    { unmapped := unstarted.addr
      notMapping := by
        intro x
        rw [unstarted.server x]
        exact ServerPoint.noConfusion
      empty := unstarted.inboxEmpty }

section Quiet

variable {s after : Pair} {action : Action} {x : Host}

theorem Pair.Quiet.server (quiet : s.Quiet) (consistent : s.Consistent) {x : Host}
    {connected : Bool} {action : ServerAction} {marks : List Mark}
    (move : ServerMove connected (s.process x) action (after.process x) marks)
    (unread : action ≠ .read) :
    (after.process x).addr = 0 ∧ (after.process x).server ≠ .mapping := by
  have server := (consistent.process x).server
  have null := quiet.unmapped x
  generalize after.process x = next at move
  cases move with
  | bind _ | listen _ | accept _ _ | awaitHandshake _ _ | skipHandshake _ _ =>
      exact ⟨null, ServerPoint.noConfusion⟩
  | takeHandshake _ _ => exact absurd rfl unread
  | takeMessage _ _ _ => exact absurd rfl unread
  | map here _ _ => exact absurd here (quiet.notMapping x)
  | initialisePage _ here _ | initialised _ here _ =>
      rw [here] at server
      exact absurd null server.2
  | create here _ =>
      rw [here] at server
      exact absurd null server.2
  | register here =>
      rw [here] at server
      exact absurd null server.2

theorem StartMove.quiet (move : StartMove s after action) (consistent : s.Consistent)
    (both : ∀ x, s.Second x) (quiet : s.Quiet) : after.Quiet := by
  cases move with
  | server x action marks move other otherInbox taken =>
      have unread : action ≠ .read := by
        rintro rfl
        rcases taken with ⟨_read, data, inbox, _held⟩ | ⟨other, _same⟩
        · rw [quiet.empty x] at inbox
          cases inbox
        · exact other rfl
      obtain ⟨null, notMapping⟩ := quiet.server consistent move unread
      refine ⟨?_, ?_, ?_⟩
      · intro z
        rcases Host.eq_or_eq_peer x z with rfl | rfl
        · exact null
        · rw [other]
          exact quiet.unmapped _
      · intro z
        rcases Host.eq_or_eq_peer x z with rfl | rfl
        · exact notMapping
        · rw [other]
          exact quiet.notMapping _
      · intro z
        rcases Host.eq_or_eq_peer x z with rfl | rfl
        · rw [(taken.resolve_left (fun read => unread read.1)).2]
          exact quiet.empty z
        · rw [otherInbox]
          exact quiet.empty _
  | client x action marks sent move other ownInbox posted sends _ended =>
      have unsent := (both x).unsent (consistent.process x) (quiet.unmapped x)
      have silent : sent = [] := by
        rcases sends with none | ⟨⟨sending, _one⟩ | ⟨menu, _command⟩, _sends⟩
        · exact none
        · exact absurd sending unsent.2
        · rw [menu] at unsent
          exact absurd trivial unsent.1
      refine ⟨?_, ?_, ?_⟩
      · intro z
        rcases Host.eq_or_eq_peer x z with rfl | rfl
        · rw [move.addr_of_second (both z) (consistent.process z)]
          exact quiet.unmapped z
        · rw [other]
          exact quiet.unmapped _
      · intro z
        rcases Host.eq_or_eq_peer x z with rfl | rfl
        · rw [move.server]
          exact quiet.notMapping z
        · rw [other]
          exact quiet.notMapping _
      · intro z
        rcases Host.eq_or_eq_peer x z with rfl | rfl
        · rw [ownInbox]
          exact quiet.empty z
        · rw [posted, silent, List.append_nil]
          exact quiet.empty _

/-- A process becomes a second machine when the other server listens before it asks. -/
theorem StartMove.wasSecond (move : StartMove s after action) (consistent : s.Consistent)
    (z : Host) (second : after.Second z) :
    s.Second z ∨ (action = .server z.peer .listen ∧ (s.process z).client = .start) := by
  unfold Pair.Second at second ⊢
  cases move with
  | server x action marks move other _otherInbox _taken =>
      rcases Host.eq_or_eq_peer x z with rfl | rfl
      · rw [other] at second
        exact .inl (second.of_same move.role.1.symm move.role.2.symm)
      · rw [other] at second
        rw [Host.peer_peer] at second ⊢
        rcases move.listens with ⟨rfl, _before, _listens⟩ | ⟨_quiet, listens⟩
        · by_cases asking : (s.process x.peer).client = .start
          · exact .inr ⟨rfl, asking⟩
          · exact .inl (second.of_started asking _)
        · rw [listens] at second
          exact .inl second
  | client x action marks sent move other _ownInbox _posted _sends _ended =>
      left
      rcases Host.eq_or_eq_peer x z with rfl | rfl
      · rw [other] at second
        exact move.wasSecond (consistent.process z) second
      · rw [other] at second
        rw [Host.peer_peer] at second ⊢
        rwa [move.listens] at second

/-- The server that listens last finds nothing mapped and nothing in flight. -/
theorem quiet_of_listen (move : StartMove s after (.server x .listen))
    (consistent : s.Consistent) (asking : (s.process x.peer).client = .start)
    (second : s.Second x) : after.Quiet := by
  cases move with
  | server _ _ marks move other otherInbox taken =>
      have fits := consistent.process x.peer
      have unset : (s.process x.peer).mchNum = 0 := by
        have client := fits.client
        rw [asking] at client
        exact client
      have peer := fits.unset_addr unset
      have here : (s.process x).server = .bound ∧ (after.process x).addr = (s.process x).addr ∧
          (after.process x).server = .listening := by
        generalize after.process x = next at move
        cases move with
        | listen here => exact ⟨here, rfl, rfl⟩
      have own : (s.process x).addr = 0 := by
        have server := (consistent.process x).server
        have client := (consistent.process x).client
        rw [here.1] at server
        apply server
        intro first
        unfold Pair.Second Process.Second at second
        rw [first] at client second
        split at second
        · rename_i place
          rw [place] at client
          cases client
        · rename_i place
          rw [place] at client
          cases client
        · exact second
        · exact second
        · cases second
      have unsent := second.unsent (consistent.process x) own
      have same : after.inbox x = s.inbox x := by
        rcases taken with ⟨read, _data⟩ | ⟨_other, same⟩
        · cases read
        · exact same
      refine ⟨?_, ?_, ?_⟩
      · intro z
        rcases Host.eq_or_eq_peer x z with rfl | rfl
        · rw [here.2.1]
          exact own
        · rw [other]
          exact peer.1
      · intro z
        rcases Host.eq_or_eq_peer x z with rfl | rfl
        · rw [here.2.2]
          exact ServerPoint.noConfusion
        · rw [other]
          exact peer.2
      · intro z
        rcases Host.eq_or_eq_peer x z with rfl | rfl
        · rw [same]
          by_contra some
          have sends := consistent.sent z.peer (by rwa [Host.peer_peer])
          rw [asking] at sends
          exact sends
        · rw [otherInbox]
          by_contra some
          exact unsent.1 (consistent.sent x some)

theorem StartMove.sound (move : StartMove s after action) (sound : s.Sound) : after.Sound := by
  refine ⟨move.consistent sound.consistent, ?_⟩
  intro both
  by_cases earlier : ∀ x, s.Second x
  · exact move.quiet sound.consistent earlier (sound.quiet earlier)
  · obtain ⟨z, other⟩ := not_forall.mp earlier
    obtain ⟨rfl, asking⟩ :=
      (move.wasSecond sound.consistent z (both z)).resolve_left other
    have peer : s.Second z.peer := by
      rcases move.wasSecond sound.consistent z.peer (both z.peer) with second | ⟨same, _asking⟩
      · exact second
      · rw [Host.peer_peer] at same
        injection same with host
        exact absurd host (Host.peer_ne z)
    apply quiet_of_listen move sound.consistent _ peer
    rw [Host.peer_peer]
    exact asking

theorem reachable_sound {start final : Pair} {actions : List Action}
    {marks : List (Host × Mark)} (unstarted : Unstarted start)
    (run : Run startStep (fun _ _ => True) start actions marks final) : final.Sound :=
  run.invariant Pair.Sound unstarted.sound
    (fun _ _ _ _ sound _ accepted => (StartMove.of_step accepted).sound sound)

/-! ### Doom is final -/

theorem StartMove.skipped (move : StartMove s after action) (consistent : s.Consistent)
    (second : s.Second x) (skipped : (s.process x).Skipped) :
    (after.process x).Skipped := by
  obtain ⟨receiving, null⟩ := skipped
  cases move with
  | server z action marks move other _otherInbox _taken =>
      rcases Host.eq_or_eq_peer z x with rfl | rfl
      · generalize after.process x = next at move
        cases move with
        | takeMessage _ _ _ => exact ⟨receiving, null⟩
        | bind here | listen here | accept here _ | awaitHandshake here _
        | skipHandshake here _ | takeHandshake here _ | create here _ | register here =>
            rw [receiving] at here
            cases here
        | map here _ _ =>
            rw [receiving] at here
            cases here
        | initialisePage _ here _ | initialised _ here _ =>
            rw [receiving] at here
            cases here
      · rw [other]
        exact ⟨receiving, null⟩
  | client z action marks sent move other _ownInbox _posted _sends _ended =>
      rcases Host.eq_or_eq_peer z x with rfl | rfl
      · refine ⟨?_, ?_⟩
        · rw [move.server]
          exact receiving
        · rw [move.addr_of_second second (consistent.process x)]
          exact null
      · rw [other]
        exact ⟨receiving, null⟩

theorem StartMove.doomed (move : StartMove s after action) (consistent : s.Consistent)
    (doomed : s.Doomed) : after.Doomed := by
  rcases doomed with both | ⟨x, second, skipped⟩
  · exact .inl (fun x => move.second x (both x))
  · exact .inr ⟨x, move.second x second, move.skipped consistent second skipped⟩

theorem Pair.Doomed.not_atMenus (doomed : s.Doomed) (sound : s.Sound) : ¬ s.AtMenus := by
  have stuck : ∀ x, s.Second x → (s.process x).addr = 0 → (s.process x).client ≠ .menu := by
    intro x second null menu
    have unsent := (second.unsent (sound.consistent.process x) null).1
    rw [menu] at unsent
    exact unsent trivial
  intro menus
  rcases doomed with both | ⟨x, second, skipped⟩
  · exact stuck .one (both .one) ((sound.quiet both).unmapped .one) (menus .one)
  · exact stuck x second skipped.2 (menus x)

end Quiet

end LKP.Dsm
