import LKP.Dsm.SecondMachine

/-
When start-up can still bring both processes to their menus.

From every state that can be reached and is not doomed it can, while the page counts that are
typed can be mapped.  A client that nobody would hear connects at once and becomes that of
machine 1, both servers listen, machine 1 goes on to its menu by itself, and what it sends
then brings machine 2 to its own.
-/

set_option autoImplicit false

namespace LKP.Dsm

open TransitionRun

/-! ### The client thread of machine 1 -/

/-- A page count that is typed is that of a region: `mmap` refuses a length of 0, on which
`errExit` ends the process, and `list_MSI` has entries for `MAX_SIZE` pages. -/
def Action.Mappable : Action → Prop
  | .client _ (.enterCount count) => 0 < count ∧ count ≤ maxSize
  | _ => True

abbrev Pair.Leads (s : Pair) (good : Pair → Prop) : Prop :=
  Reaches startStep (fun _ action => action.Mappable) s good

/-- Only the client thread of `x` has moved, and it has read nothing. -/
structure ClientFrame (x : Host) (s t : Pair) : Prop where
  peer : t.process x.peer = s.process x.peer
  server : (t.process x).server = (s.process x).server
  inbox : t.inbox x = s.inbox x

theorem ClientFrame.refl (x : Host) (s : Pair) : ClientFrame x s s := ⟨rfl, rfl, rfl⟩

theorem ClientFrame.trans {x : Host} {s t u : Pair} (first : ClientFrame x s t)
    (second : ClientFrame x t u) : ClientFrame x s u :=
  ⟨second.peer.trans first.peer, second.server.trans first.server,
    second.inbox.trans first.inbox⟩

def Arrives (x : Host) (point : ClientPoint) (s t : Pair) : Prop :=
  (t.process x).client = point ∧ ClientFrame x s t

section Client

variable {x : Host} {s : Pair} {point : ClientPoint}

theorem client_step (action : ClientAction) (process : Process) {sent : List ProcInfo}
    {marks : List Mark}
    (accepted : clientStep (s.process x.peer).listens (s.process x) action =
      some (process, sent, marks))
    (server : process.server = (s.process x).server) :
    ∃ t shown, startStep s (.client x action) = some (t, shown) ∧ t.process x = process ∧
      ClientFrame x s t ∧ t.inbox x.peer = s.inbox x.peer ++ sent := by
  refine ⟨{ s.put x process with
      inbox := Function.update s.inbox x.peer (s.inbox x.peer ++ sent) },
    marks.map (fun mark => (x, mark)), by simp only [startStep, accepted], s.put_self .., ?_,
    Function.update_self ..⟩
  refine ⟨s.put_peer .., ?_, Function.update_of_ne (Host.ne_peer x) ..⟩
  change ((s.put x process).process x).server = _
  rw [s.put_self]
  exact server

/-- One action of the client thread to the state `process`, and from there on. -/
theorem Pair.Leads.client (process : Process) (action : ClientAction)
    {sent : List ProcInfo} {marks : List Mark}
    (accepted : clientStep (s.process x.peer).listens (s.process x) action =
      some (process, sent, marks))
    (server : process.server = (s.process x).server)
    (mappable : (Action.client x action).Mappable)
    (rest : ∀ t : Pair, t.process x = process → ClientFrame x s t →
      t.Leads (Arrives x point t)) : s.Leads (Arrives x point s) := by
  obtain ⟨t, shown, stepped, own, frame, _inbox⟩ := client_step action process accepted server
  refine Reaches.next mappable stepped ((rest t own frame).trans ?_)
  intro u arrives
  exact .here ⟨arrives.1, frame.trans arrives.2⟩

theorem leads_from_starting (here : (s.process x).client = .starting) :
    s.Leads (Arrives x .menu s) := by
  apply Pair.Leads.client { s.process x with client := .menu } .startHandler
    (by simp only [clientStep, if_pos here]; rfl) rfl trivial
  intro t process _frame
  exact .here ⟨by rw [process], .refl x t⟩

theorem leads_from_registering (here : (s.process x).client = .registering) :
    s.Leads (Arrives x .menu s) := by
  apply Pair.Leads.client { s.process x with client := .starting } .register
    (by simp only [clientStep, if_pos here]; rfl) rfl trivial
  intro t process _frame
  exact leads_from_starting (by rw [process])

theorem leads_from_creating (here : (s.process x).client = .creating) :
    s.Leads (Arrives x .menu s) := by
  apply Pair.Leads.client { s.process x with initUffd := 3, client := .registering }
    (.create 3)
    (by simp only [clientStep, if_pos (And.intro here (by decide : (3 : Int) ≠ -1))]; rfl) rfl trivial
  intro t process _frame
  exact leads_from_registering (by rw [process])

theorem leads_from_sending (here : (s.process x).client = .sending) :
    s.Leads (Arrives x .menu s) := by
  apply Pair.Leads.client { s.process x with client := .creating } .send
    (by simp only [clientStep, if_pos here]; rfl) rfl trivial
  intro t process _frame
  exact leads_from_creating (by rw [process])

/-- The loop over the table ends, wherever it stands. -/
theorem leads_from_initialising (left : Nat) (count : Int)
    (here : (s.process x).client = .initialising count)
    (bound : (s.process x).tempData.pageCount - count ≤ left) :
    s.Leads (Arrives x .menu s) := by
  induction left generalizing s count with
  | zero =>
      have done : ¬ count < (s.process x).tempData.pageCount := by omega
      apply Pair.Leads.client { s.process x with client := .sending } .initialise
        (by simp only [clientStep, here, if_neg done]; rfl) rfl trivial
      intro t process _frame
      exact leads_from_sending (by rw [process])
  | succ left ih =>
      by_cases more : count < (s.process x).tempData.pageCount
      · apply Pair.Leads.client
          { s.process x with
            listMSI := Function.update (s.process x).listMSI count .invalid
            client := .initialising (count + 1) }
          .initialise (by simp only [clientStep, here, if_pos more]; rfl) rfl trivial
        intro t process _frame
        apply ih (count + 1)
        · rw [process]
        · rw [process]
          change (s.process x).tempData.pageCount - (count + 1) ≤ left
          omega
      · apply Pair.Leads.client { s.process x with client := .sending } .initialise
          (by simp only [clientStep, here, if_neg more]; rfl) rfl trivial
        intro t process _frame
        exact leads_from_sending (by rw [process])

theorem leads_from_mapping (here : (s.process x).client = .mapping) :
    s.Leads (Arrives x .menu s) := by
  apply Pair.Leads.client { s.process x with
      addr := 4096
      sendData := { (s.process x).sendData with addr := 4096 }
      client := .initialising 0 } (.map 4096)
    (by simp only [clientStep, if_pos (And.intro here (by decide : (4096 : Int) ≠ 0))]; rfl)
    rfl trivial
  intro t process _frame
  apply leads_from_initialising ((t.process x).tempData.pageCount).toNat 0
  · rw [process]
  · omega

theorem leads_from_counting (here : (s.process x).client = .counting) :
    s.Leads (Arrives x .menu s) := by
  apply Pair.Leads.client { s.process x with
      sendData := { (s.process x).sendData with pageCount := 1 }
      tempData := { (s.process x).tempData with pageCount := 1 }
      client := .mapping } (.enterCount 1)
    (by simp only [clientStep, if_pos here]; rfl) rfl ⟨by decide, by decide⟩
  intro t process _frame
  exact leads_from_mapping (by rw [process])

theorem leads_from_decided (here : (s.process x).client = .decided)
    (first : (s.process x).mchNum = 1) : s.Leads (Arrives x .menu s) := by
  apply Pair.Leads.client { s.process x with client := .counting } .testRole
    (by simp only [clientStep, if_pos here, if_pos first]; rfl) rfl trivial
  intro t process _frame
  exact leads_from_counting (by rw [process])

theorem leads_from_retrying (here : (s.process x).client = .retrying)
    (first : (s.process x).mchNum = 1) (heard : (s.process x.peer).listens = true) :
    s.Leads (Arrives x .menu s) := by
  apply Pair.Leads.client { s.process x with client := .decided } .retry
    (by simp only [clientStep, if_pos here, heard, if_true]; rfl) rfl trivial
  intro t process _frame
  exact leads_from_decided (by rw [process]) (by rw [process]; exact first)

theorem leads_from_refused (here : (s.process x).client = .refused)
    (heard : (s.process x.peer).listens = true) : s.Leads (Arrives x .menu s) := by
  have later : (s.process x).client ≠ .connected := by
    rw [here]
    exact ClientPoint.noConfusion
  apply Pair.Leads.client { s.process x with mchNum := 1, client := .retrying }
    .assignRole
    (by simp only [clientStep, if_neg later, if_pos here]; rfl) rfl trivial
  intro t process frame
  apply leads_from_retrying
  · rw [process]
  · rw [process]
  · rw [frame.peer]
    exact heard

/-- A client that is not that of a second machine goes on to its menu by itself. -/
theorem first_leads (consistent : (s.process x).Consistent) (first : ¬ s.Second x)
    (heard : (s.process x.peer).listens = true) : s.Leads (Arrives x .menu s) := by
  have client := consistent.client
  unfold Pair.Second Process.Second at first
  cases here : (s.process x).client with
  | start =>
      rw [here] at first
      exact absurd heard first
  | connected =>
      rw [here] at first
      exact absurd trivial first
  | refused => exact leads_from_refused here heard
  | retrying =>
      rw [here] at client
      exact leads_from_retrying here client heard
  | decided =>
      rw [here] at first client
      exact leads_from_decided here (client.resolve_right first)
  | counting => exact leads_from_counting here
  | mapping => exact leads_from_mapping here
  | initialising count =>
      exact leads_from_initialising ((s.process x).tempData.pageCount - count).toNat count
        here (by omega)
  | sending => exact leads_from_sending here
  | creating => exact leads_from_creating here
  | registering => exact leads_from_registering here
  | waiting =>
      rw [here] at first client
      exact absurd client first
  | starting => exact leads_from_starting here
  | menu => exact .here ⟨here, .refl x s⟩

/-! ### The two threads of machine 2 -/

theorem leads_from_waiting (here : (s.process x).client = .waiting)
    (mapped : (s.process x).addr ≠ 0) : s.Leads (Arrives x .menu s) := by
  apply Pair.Leads.client { s.process x with client := .starting } .testAddr
    (by simp only [clientStep, if_pos here, if_neg mapped]; rfl) rfl trivial
  intro t process _frame
  exact leads_from_starting (by rw [process])

/-- The client has its role and is at the loop that waits for `addr`, or past it. -/
def Pair.Awaits (s : Pair) (x : Host) : Prop :=
  (s.process x).mchNum = 2 ∧
    ((s.process x).client = .waiting ∨ (s.process x).addr ≠ 0 ∧
      ((s.process x).client = .starting ∨ (s.process x).client = .menu))

theorem Pair.Awaits.leads (awaits : s.Awaits x) (mapped : (s.process x).addr ≠ 0) :
    s.Leads (Arrives x .menu s) := by
  rcases awaits.2 with waiting | ⟨_mapped, starting | menu⟩
  · exact leads_from_waiting waiting mapped
  · exact leads_from_starting starting
  · exact .here ⟨menu, .refl x s⟩

theorem second_client (consistent : (s.process x).Consistent) (second : s.Second x) :
    s.Leads (fun t => t.Awaits x ∧ ClientFrame x s t ∧
      (t.process x).addr = (s.process x).addr) := by
  have decided : ∀ t : Pair, (t.process x).client = .decided → (t.process x).mchNum = 2 →
      ClientFrame x s t → (t.process x).addr = (s.process x).addr →
      t.Leads (fun u => u.Awaits x ∧ ClientFrame x s u ∧
        (u.process x).addr = (s.process x).addr) := by
    intro t here role frame addr
    have other : (t.process x).mchNum ≠ 1 := by
      rw [role]
      decide
    obtain ⟨u, shown, stepped, own, moved, _inbox⟩ :=
      client_step (s := t) (x := x) .testRole
        { t.process x with client := .waiting }
        (by simp only [clientStep, if_pos here, if_neg other]; rfl) rfl
    refine Reaches.next (by trivial) stepped (.here ⟨⟨?_, .inl ?_⟩, frame.trans moved, ?_⟩)
    · rw [own]
      exact role
    · rw [own]
    · rw [own]
      exact addr
  have connected : ∀ t : Pair, (t.process x).client = .connected → ClientFrame x s t →
      (t.process x).addr = (s.process x).addr →
      t.Leads (fun u => u.Awaits x ∧ ClientFrame x s u ∧
        (u.process x).addr = (s.process x).addr) := by
    intro t here frame addr
    obtain ⟨u, shown, stepped, own, moved, _inbox⟩ :=
      client_step (s := t) (x := x) .assignRole
        { t.process x with mchNum := 2, client := .decided }
        (by simp only [clientStep, if_pos here]; rfl) rfl
    refine Reaches.next (by trivial) stepped
      (decided u (by rw [own]) (by rw [own]) (frame.trans moved) ?_)
    rw [own]
    exact addr
  have client := consistent.client
  unfold Pair.Second Process.Second at second
  cases here : (s.process x).client with
  | start =>
      rw [here] at second
      obtain ⟨u, shown, stepped, own, moved, _inbox⟩ :=
        client_step (s := s) (x := x) .connect
          { s.process x with client := .connected }
          (by simp only [clientStep, if_pos here, second, if_true]; rfl) rfl
      exact Reaches.next (by trivial) stepped (connected u (by rw [own]) moved (by rw [own]))
  | connected => exact connected s here (.refl x s) rfl
  | refused =>
      rw [here] at second
      exact second.elim
  | retrying =>
      rw [here] at second
      exact second.elim
  | decided =>
      rw [here] at second
      exact decided s here second (.refl x s) rfl
  | waiting =>
      rw [here] at second
      exact .here ⟨⟨second, .inl here⟩, .refl x s, rfl⟩
  | starting =>
      rw [here] at second client
      have mapped := (client.resolve_left (fun first => roles_differ first second)).2
      exact .here ⟨⟨second, .inr ⟨mapped, .inl here⟩⟩, .refl x s, rfl⟩
  | menu =>
      rw [here] at second client
      have mapped := (client.resolve_left (fun first => roles_differ first second)).2
      exact .here ⟨⟨second, .inr ⟨mapped, .inr here⟩⟩, .refl x s, rfl⟩
  | counting | mapping | sending | creating | registering =>
      rw [here] at second client
      exact (roles_differ client second).elim
  | initialising count =>
      rw [here] at second client
      exact (roles_differ client second).elim

end Client

structure ServerFrame (x : Host) (s t : Pair) : Prop where
  peer : t.process x.peer = s.process x.peer
  client : (t.process x).client = (s.process x).client
  role : (t.process x).mchNum = (s.process x).mchNum

theorem ServerFrame.refl (x : Host) (s : Pair) : ServerFrame x s s := ⟨rfl, rfl, rfl⟩

theorem ServerFrame.trans {x : Host} {s t u : Pair} (first : ServerFrame x s t)
    (second : ServerFrame x t u) : ServerFrame x s u :=
  ⟨second.peer.trans first.peer, second.client.trans first.client,
    second.role.trans first.role⟩

section Server

variable {x : Host} {s : Pair}

theorem server_step (action : ServerAction) (process : Process) {rest : List ProcInfo}
    {marks : List Mark}
    (accepted : serverStep (s.process x.peer).connects (s.inbox x) (s.process x) action =
      some (process, rest, marks)) :
    ∃ t shown, startStep s (.server x action) = some (t, shown) ∧ t.process x = process ∧
      ServerFrame x s t ∧ t.inbox x = rest := by
  have role := (ServerMove.of_step accepted).role
  refine ⟨{ s.put x process with inbox := Function.update s.inbox x rest },
    marks.map (fun mark => (x, mark)), by simp only [startStep, accepted], s.put_self ..,
    ⟨s.put_peer .., ?_, ?_⟩, Function.update_self ..⟩
  · change ((s.put x process).process x).client = _
    rw [s.put_self]
    exact role.1
  · change ((s.put x process).process x).mchNum = _
    rw [s.put_self]
    exact role.2

def Maps (x : Host) (s t : Pair) : Prop := (t.process x).addr ≠ 0 ∧ ServerFrame x s t

theorem Pair.Leads.server (process : Process) (action : ServerAction)
    {left : List ProcInfo} {marks : List Mark}
    (accepted : serverStep (s.process x.peer).connects (s.inbox x) (s.process x) action =
      some (process, left, marks))
    (rest : ∀ t : Pair, t.process x = process → ServerFrame x s t → t.inbox x = left →
      t.Leads (Maps x t)) : s.Leads (Maps x s) := by
  obtain ⟨t, shown, stepped, own, frame, inbox⟩ := server_step action process accepted
  refine Reaches.next (by trivial) stepped ((rest t own frame inbox).trans ?_)
  intro u maps
  exact .here ⟨maps.1, frame.trans maps.2⟩

theorem leads_from_serverMapping (here : (s.process x).server = .mapping) :
    s.Leads (Maps x s) := by
  apply Pair.Leads.server { s.process x with addr := 4096, server := .initialising 0 }
    (.map 4096)
    (by simp only [serverStep, if_pos (And.intro here (by decide : (4096 : Int) ≠ 0))]; rfl)
  intro t process _frame _inbox
  refine .here ⟨?_, .refl x t⟩
  rw [process]
  exact (by decide : (4096 : Int) ≠ 0)

theorem leads_from_handshake (here : (s.process x).server = .handshake)
    (some : s.inbox x ≠ []) : s.Leads (Maps x s) := by
  obtain ⟨recvData, rest, oldest⟩ := List.exists_cons_of_ne_nil some
  apply Pair.Leads.server { s.process x with tempData := recvData, server := .mapping }
    .read (by simp only [serverStep, oldest, if_pos here]; rfl)
  intro t process _frame _inbox
  exact leads_from_serverMapping (by rw [process])

theorem leads_from_accepted (here : (s.process x).server = .accepted)
    (role : (s.process x).mchNum = 2) (some : s.inbox x ≠ []) : s.Leads (Maps x s) := by
  apply Pair.Leads.server { s.process x with server := .handshake } .testRole
    (by simp only [serverStep, if_pos here, if_pos role]; rfl)
  intro t process _frame inbox
  apply leads_from_handshake (by rw [process])
  rw [inbox]
  exact some

theorem leads_from_listening (here : (s.process x).server = .listening)
    (role : (s.process x).mchNum = 2) (connected : (s.process x.peer).connects = true)
    (some : s.inbox x ≠ []) : s.Leads (Maps x s) := by
  apply Pair.Leads.server { s.process x with server := .accepted } .accept
    (by simp only [serverStep, if_pos (And.intro here connected)]; rfl)
  intro t process _frame inbox
  apply leads_from_accepted
  · rw [process]
  · rw [process]
    exact role
  · rw [inbox]
    exact some

/-- A machine 2 whose server thread has not skipped the handshake gets its mapping. -/
theorem second_server (consistent : (s.process x).Consistent)
    (role : (s.process x).mchNum = 2) (heard : (s.process x).listens = true)
    (connected : (s.process x.peer).connects = true) (some : s.inbox x ≠ [])
    (unskipped : ¬ (s.process x).Skipped) : s.Leads (Maps x s) := by
  have server := consistent.server
  cases here : (s.process x).server with
  | start | bound => simp [Process.listens, here] at heard
  | listening => exact leads_from_listening here role connected some
  | accepted => exact leads_from_accepted here role some
  | handshake => exact leads_from_handshake here some
  | mapping => exact leads_from_serverMapping here
  | initialising count =>
      rw [here] at server
      exact .here ⟨server.2, .refl x s⟩
  | creating | registering =>
      rw [here] at server
      exact .here ⟨server.2, .refl x s⟩
  | receiving => exact .here ⟨fun null => unskipped ⟨here, null⟩, .refl x s⟩

end Server

/-! ### Both menus -/

section Both

variable {x : Host} {s : Pair} {good : Pair → Prop}

theorem Pair.Leads.consistent (leads : s.Leads good) (consistent : s.Consistent) :
    s.Leads (fun t => good t ∧ t.Consistent) := by
  obtain ⟨actions, marks, final, run, holds⟩ := leads
  refine ⟨actions, marks, final, run, holds, ?_⟩
  exact run.invariant Pair.Consistent consistent
    (fun _ _ _ _ before _ accepted => (StartMove.of_step accepted).consistent before)

/-- A machine 2 that has not skipped the handshake comes to its menu when machine 1 is
there: the user of machine 1 enters one more command. -/
theorem second_leads (consistent : s.Consistent) (second : s.Second x)
    (unskipped : ¬ (s.process x).Skipped) (heard : (s.process x).listens = true)
    (menu : (s.process x.peer).client = .menu) : s.Leads Pair.AtMenus := by
  refine ((second_client (consistent.process x) second).consistent consistent).trans ?_
  rintro t ⟨⟨awaits, frame, addr⟩, fits⟩
  have atMenu : (t.process x.peer).client = .menu := by
    rw [frame.peer]
    exact menu
  obtain ⟨u, shown, stepped, own, moved, inbox⟩ :=
    client_step (s := t) (x := x.peer) (.command (t.process x.peer).tempData)
      (t.process x.peer) (by simp only [clientStep, if_pos atMenu]; rfl) rfl
  have kept := moved.peer
  rw [Host.peer_peer] at kept inbox
  have consistentAfter := (StartMove.of_step stepped).consistent fits
  refine Reaches.next (by trivial) stepped ?_
  have maps : u.Leads (Maps x u) := by
    apply second_server (consistentAfter.process x)
    · rw [kept]
      exact awaits.1
    · unfold Process.listens
      rw [kept, frame.server]
      exact heard
    · rw [own]
      simp [Process.connects, atMenu]
    · rw [inbox]
      simp
    · rw [kept]
      intro skipped
      exact unskipped ⟨frame.server ▸ skipped.1, addr ▸ skipped.2⟩
  refine maps.trans ?_
  rintro v ⟨mapped, server⟩
  have waits : v.Awaits x := by
    refine ⟨?_, ?_⟩
    · rw [server.role, kept]
      exact awaits.1
    · rw [server.client, kept]
      exact awaits.2.imp_right (fun later => ⟨mapped, later.2⟩)
  refine (waits.leads mapped).trans ?_
  rintro w ⟨own', client⟩
  refine .here ?_
  intro z
  rcases Host.eq_or_eq_peer x z with rfl | rfl
  · exact own'
  · rw [client.peer, server.peer, own]
    exact atMenu

/-- A client that has not asked yet can only be answered yes. -/
def Pair.Settled (s : Pair) (x : Host) : Prop :=
  (s.process x).client = .start → (s.process x.peer).listens = true

theorem Process.listens_of_server {process other : Process}
    (same : other.server = process.server) : other.listens = process.listens := by
  unfold Process.listens
  rw [same]

/-- A client that would not be heard asks now, and becomes that of machine 1. -/
theorem connect_leads (x : Host) (undoomed : ¬ s.Doomed) :
    s.Leads (fun t => ¬ t.Doomed ∧ t.Settled x ∧ (s.Settled x.peer → t.Settled x.peer)) := by
  by_cases settled : s.Settled x
  · exact .here ⟨undoomed, settled, id⟩
  · obtain ⟨asking, unheard⟩ := Classical.not_imp.mp settled
    have deaf : (s.process x.peer).listens = false := Bool.not_eq_true _ ▸ unheard
    obtain ⟨t, shown, stepped, own, frame, _inbox⟩ :=
      client_step (s := s) (x := x) .connect
        { s.process x with client := .refused }
        (by simp only [clientStep, if_pos asking, deaf, Bool.false_eq_true, if_false]; rfl) rfl
    have listens : (t.process x).listens = (s.process x).listens :=
      Process.listens_of_server frame.server
    have first : ¬ t.Second x := by
      unfold Pair.Second Process.Second
      rw [own]
      exact id
    have peer : t.Second x.peer → s.Second x.peer := by
      unfold Pair.Second
      rw [Host.peer_peer, frame.peer, listens]
      exact id
    refine Reaches.next (by trivial) stepped (.here ⟨?_, ?_, ?_⟩)
    · rintro (both | ⟨z, second, skipped⟩)
      · exact first (both x)
      · rcases Host.eq_or_eq_peer x z with rfl | rfl
        · exact first second
        · rw [frame.peer] at skipped
          exact undoomed (.inr ⟨x.peer, peer second, skipped⟩)
    · intro here
      rw [own] at here
      cases here
    · intro peerSettled here
      rw [frame.peer] at here
      rw [Host.peer_peer, listens]
      have heard := peerSettled here
      rwa [Host.peer_peer] at heard

/-- Once nobody is unsettled, a server on its way to the receive loop dooms nobody. -/
theorem undoomed_of_server {t : Pair} (frame : ServerFrame x s t)
    (settled : s.Settled x.peer) (place : (t.process x).server ≠ .receiving)
    (undoomed : ¬ s.Doomed) : ¬ t.Doomed := by
  have back : ∀ z, t.Second z → s.Second z := by
    intro z second
    unfold Pair.Second at second ⊢
    rcases Host.eq_or_eq_peer x z with rfl | rfl
    · rw [frame.peer] at second
      exact second.of_same frame.client.symm frame.role.symm
    · rw [frame.peer] at second
      by_cases asking : (s.process x.peer).client = .start
      · unfold Process.Second
        rw [asking]
        exact settled asking
      · exact second.of_started asking _
  rintro (both | ⟨z, second, skipped⟩)
  · exact undoomed (.inl (fun z => back z (both z)))
  · rcases Host.eq_or_eq_peer x z with rfl | rfl
    · exact place skipped.1
    · rw [frame.peer] at skipped
      exact undoomed (.inr ⟨x.peer, back _ second, skipped⟩)

def Listens (x : Host) (s t : Pair) : Prop :=
  ¬ t.Doomed ∧ (∀ z, t.Settled z) ∧ (t.process x).listens = true ∧
    t.process x.peer = s.process x.peer

theorem listen_leads (x : Host) (undoomed : ¬ s.Doomed) (settled : ∀ z, s.Settled z) :
    s.Leads (Listens x s) := by
  have stays : ∀ {t : Pair}, ServerFrame x s t → (t.process x).listens = true →
      ∀ z, t.Settled z := by
    intro t frame listening z here
    rcases Host.eq_or_eq_peer x z with rfl | rfl
    · rw [frame.peer]
      rw [frame.client] at here
      exact settled z here
    · rw [Host.peer_peer]
      exact listening
  have bound : ∀ t : Pair, (t.process x).server = .bound → ServerFrame x s t →
      t.Leads (Listens x s) := by
    intro t here frame
    obtain ⟨u, shown, stepped, own, moved, _inbox⟩ :=
      server_step (s := t) (x := x) .listen
        { t.process x with server := .listening }
        (by simp only [serverStep, if_pos here]; rfl)
    have whole := frame.trans moved
    have listening : (u.process x).listens = true := by
      rw [own]
      rfl
    refine Reaches.next (by trivial) stepped (.here ⟨?_, stays whole listening, listening, whole.peer⟩)
    apply undoomed_of_server whole (settled x.peer) _ undoomed
    rw [own]
    exact ServerPoint.noConfusion
  by_cases already : (s.process x).listens = true
  · exact .here ⟨undoomed, settled, already, rfl⟩
  · by_cases start : (s.process x).server = .start
    · obtain ⟨t, shown, stepped, own, moved, _inbox⟩ :=
        server_step (s := s) (x := x) .bind
          { s.process x with server := .bound }
          (by simp only [serverStep, if_pos start]; rfl)
      exact Reaches.next (by trivial) stepped (bound t (by rw [own]) moved)
    · have here : (s.process x).server = .bound := by
        by_contra other
        exact already (decide_eq_true ⟨start, other⟩)
      exact bound s here (.refl x s)

/-- With both servers listening, both menus are reached from every state that is not
doomed. -/
theorem listening_leads (consistent : s.Consistent) (undoomed : ¬ s.Doomed)
    (heard : ∀ z, (s.process z).listens = true) : s.Leads Pair.AtMenus := by
  by_cases some : ∃ x, s.Second x
  · obtain ⟨x, second⟩ := some
    have first : ¬ s.Second x.peer := by
      intro peer
      apply undoomed
      left
      intro z
      rcases Host.eq_or_eq_peer x z with rfl | rfl
      · exact second
      · exact peer
    have arrives := first_leads (consistent.process x.peer) first (heard x.peer.peer)
    refine (arrives.consistent consistent).trans ?_
    rintro t ⟨⟨menu, frame⟩, fits⟩
    have same := frame.peer
    rw [Host.peer_peer] at same
    apply second_leads fits (x := x)
    · unfold Pair.Second
      rw [same, Process.listens_of_server frame.server]
      exact second
    · rw [same]
      exact fun skipped => undoomed (.inr ⟨x, second, skipped⟩)
    · rw [same]
      exact heard x
    · exact menu
  · have none : ∀ x, ¬ s.Second x := not_exists.mp some
    have one := first_leads (consistent.process .one) (none .one) (heard _)
    refine (one.consistent consistent).trans ?_
    rintro t ⟨⟨menu, frame⟩, fits⟩
    have same : t.process .two = s.process .two := frame.peer
    have listening : (t.process Host.two.peer).listens = true := by
      change (t.process .one).listens = true
      rw [Process.listens_of_server frame.server]
      exact heard .one
    have other : ¬ t.Second .two := by
      intro second
      apply none .two
      unfold Pair.Second at second ⊢
      rw [same, listening] at second
      rw [show (s.process Host.two.peer).listens = true from heard .one]
      exact second
    refine (first_leads (fits.process .two) other listening).trans ?_
    rintro u ⟨menuTwo, frameTwo⟩
    refine .here ?_
    intro z
    cases z with
    | one =>
        have kept : u.process .one = t.process .one := frameTwo.peer
        rw [kept]
        exact menu
    | two => exact menuTwo

end Both

/-- From a state of start-up in which only page counts were typed that can be mapped, both menus
can still be reached if and only if it is not doomed: not both processes are or will be machine
2, and no machine 2 has its server thread in the receive loop without a mapping. -/
theorem menus_reached_iff {start final : Pair} {actions : List Action}
    {marks : List (Host × Mark)} (unstarted : Unstarted start)
    (run : Run startStep (fun _ action => action.Mappable) start actions marks final) :
    final.Leads Pair.AtMenus ↔ ¬ final.Doomed := by
  have sound := reachable_sound unstarted (run.weaken (fun _ _ _ => trivial))
  constructor
  · intro leads doomed
    refine Reaches.not_of_invariant (fun s => s.Sound ∧ s.Doomed) ⟨sound, doomed⟩ ?_ ?_ leads
    · rintro before action after shown ⟨soundBefore, doomedBefore⟩ _allowed accepted
      have move := StartMove.of_step accepted
      exact ⟨move.sound soundBefore, move.doomed soundBefore.consistent doomedBefore⟩
    · rintro s ⟨soundThere, doomedThere⟩
      exact doomedThere.not_atMenus soundThere
  · intro undoomed
    have listening : final.Leads (fun s => ¬ s.Doomed ∧ ∀ z, (s.process z).listens = true) := by
      refine (connect_leads .one undoomed).trans ?_
      rintro s ⟨undoomedOne, settledOne, _peer⟩
      refine (connect_leads .two undoomedOne).trans ?_
      rintro t ⟨undoomedTwo, settledTwo, kept⟩
      have settled : ∀ z, t.Settled z := by
        intro z
        cases z with
        | one => exact kept settledOne
        | two => exact settledTwo
      refine (listen_leads .one undoomedTwo settled).trans ?_
      rintro u ⟨undoomedThree, settledThree, heardOne, _other⟩
      refine (listen_leads .two undoomedThree settledThree).trans ?_
      rintro v ⟨undoomedFour, _settledFour, heardTwo, same⟩
      refine .here ⟨undoomedFour, ?_⟩
      intro z
      cases z with
      | one =>
          have one : v.process .one = u.process .one := same
          rw [one]
          exact heardOne
      | two => exact heardTwo
    refine (listening.consistent sound.consistent).trans ?_
    rintro s ⟨⟨undoomedThere, heard⟩, fits⟩
    exact listening_leads fits undoomedThere heard

instance (action : Action) : Decidable action.Mappable := by
  cases action with
  | server x action => exact inferInstanceAs (Decidable True)
  | client x action =>
      cases action with
      | enterCount count => exact inferInstanceAs (Decidable (_ ∧ _))
      | _ => exact inferInstanceAs (Decidable True)

/-- Machine 1 has four pages.  Machine 2's server thread accepts the connection and tests
`mch_num` before its client thread has set it. -/
def racedTest : List Action :=
  [.server .one .bind, .server .one .listen, .client .one .connect, .client .one .assignRole,
    .server .two .bind, .server .two .listen, .client .two .connect, .client .one .retry,
    .client .one .testRole, .client .one (.enterCount 4), .client .one (.map 65536),
    .server .two .accept, .server .two .testRole, .client .two .assignRole]

private theorem racedTest_run :
    (launch (fun _ action => action.Mappable) racedTest).isSome = true := by
  decide

theorem menus_reached_iff_racedTest :
    ((launch (fun _ action => action.Mappable) racedTest).get racedTest_run).1.Leads
        Pair.AtMenus ↔
      ¬ ((launch (fun _ action => action.Mappable) racedTest).get racedTest_run).1.Doomed :=
  menus_reached_iff zeroPair_unstarted (launch_run _ racedTest racedTest_run)

end LKP.Dsm
