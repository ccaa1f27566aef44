import LKP.Dsm.SerialRefinement

/-
Overlapping commands that still refine textbook MSI.

Serial runs wait for the whole system before each command.  Much less is enough: a
menu accesses a page only when the receive loop of its own machine has caught up.
It may then go on before the peer has received anything, both menus may be inside a
command, and a reply may be read at any later time.  Only one direction carries
structs at a time, so the drained machines still move one page access at a time.
-/

set_option autoImplicit false

namespace LKP.Dsm

open TransitionRun CBuffer TwoCacheMsi

/-- Nothing is in flight to a menu that accesses a page; the loops go on as they like. -/
def CaughtUp (setup : Setup) (s : System) : Event → Prop
  | .read x page => setup.Commandable page ∧ s.inbox x = []
  | .write x page _ => setup.Commandable page ∧ s.inbox x = []
  | .iterate x => s.inbox x = []
  | .select _ _ | .enter _ _ => False
  | .receive _ | .serve _ => True

instance (setup : Setup) (s : System) (event : Event) : Decidable (CaughtUp setup s event) :=
  match event with
  | .read x _ | .write x _ _ =>
      haveI : Decidable (s.inbox x = []) := decidable_of_iff _ List.isEmpty_iff
      inferInstanceAs (Decidable (_ ∧ _))
  | .iterate x => decidable_of_iff (s.inbox x).isEmpty List.isEmpty_iff
  | .select _ _ | .enter _ _ => inferInstanceAs (Decidable False)
  | .receive _ | .serve _ => inferInstanceAs (Decidable True)

/-! ### Systems without their menus -/

def Machine.prompted (machine : Machine) : Machine := { machine with menu := .prompt }

/-- What agreement with a table sees of a system: everything but where the menus are. -/
def System.prompted (s : System) : System :=
  { s with machine := fun z => (s.machine z).prompted }

theorem System.of_parts {s t : System} (machine : s.machine = t.machine)
    (inbox : s.inbox = t.inbox) (replies : s.replies = t.replies) : s = t := by
  cases s
  cases t
  cases machine
  cases inbox
  cases replies
  rfl

section Prompted

variable (setup : Setup) (s : System) (x z : Host) (machine : Machine)

@[simp] theorem prompted_machine : s.prompted.machine z = (s.machine z).prompted := rfl

@[simp] theorem prompted_inbox : s.prompted.inbox = s.inbox := rfl

@[simp] theorem prompted_listMSI : machine.prompted.listMSI = machine.listMSI := rfl

@[simp] theorem prompted_addr : machine.prompted.addr = machine.addr := rfl

@[simp] theorem prompted_tempData : machine.prompted.tempData = machine.tempData := rfl

theorem put_prompted : (s.put x machine).prompted = s.prompted.put x machine.prompted := by
  unfold System.put System.prompted
  congr 1
  funext z
  by_cases same : z = x
  · subst same
    simp only [Function.update_self]
  · simp only [Function.update_of_ne same]

theorem apply_prompted (result : Machine × MenuEffect) :
    (s.apply x result).1.prompted = (s.prompted.apply x (result.1.prompted, result.2)).1 ∧
      (s.apply x result).2 = (s.prompted.apply x (result.1.prompted, result.2)).2 := by
  obtain ⟨machine, effect⟩ := result
  cases effect with
  | silent => exact ⟨put_prompted .., rfl⟩
  | send data =>
      refine ⟨?_, rfl⟩
      change ((s.put x machine).prompted).post x data = _
      rw [put_prompted]
      rfl
  | display text => exact ⟨put_prompted .., rfl⟩

theorem serve_prompted (data : ProcInfo) (rest : List ProcInfo) :
    (s.serve setup x data rest).1.prompted = (s.prompted.serve setup x data rest).1 ∧
      (s.serve setup x data rest).2 = (s.prompted.serve setup x data rest).2 := by
  have machines := congrArg System.machine
    (put_prompted s x ((s.machine x).afterServe data))
  have served : (s.machine x).prompted.afterServe data =
      ((s.machine x).afterServe data).prompted := rfl
  unfold System.serve
  simp only [serverReceive_eq, prompted_machine, prompted_listMSI, prompted_addr, served]
  split
  · refine ⟨?_, rfl⟩
    exact System.of_parts machines rfl rfl
  · refine ⟨?_, rfl⟩
    exact System.of_parts machines rfl rfl

theorem pageRead_prompted (page : Int) (held waiting : Menu) :
    machine.prompted.pageRead setup page .prompt .prompt =
      ((machine.pageRead setup page held waiting).1.prompted,
        (machine.pageRead setup page held waiting).2) := by
  have same : machine.prompted.listMSI page = machine.listMSI page := rfl
  unfold Machine.pageRead
  by_cases absent : (machine.listMSI page).I = true
  · rw [if_pos absent, if_pos (same ▸ absent)]
    rfl
  · rw [if_neg absent, if_neg (same ▸ absent)]
    by_cases present : (machine.listMSI page).S = true ∨ (machine.listMSI page).M = true
    · rw [if_pos present, if_pos (same ▸ present)]
      rfl
    · rw [if_neg present, if_neg (same ▸ present)]
      rfl

theorem received_prompted (structs : List ProcInfo) :
    machine.prompted.received structs = (machine.received structs).prompted := by
  induction structs generalizing machine with
  | nil => rfl
  | cons data rest ih => exact ih (machine.afterServe data)

theorem drained_prompted : s.prompted.drained z = (s.drained z).prompted :=
  received_prompted ..

end Prompted

/-! ### A machine whose signals are about to be overwritten -/

theorem received_listMSI_of_same {machine other : Machine}
    (same : machine.listMSI = other.listMSI) (structs : List ProcInfo) :
    (machine.received structs).listMSI = (other.received structs).listMSI := by
  induction structs generalizing machine other with
  | nil => exact same
  | cons data rest ih =>
      apply ih
      rw [afterServe_listMSI, afterServe_listMSI, same]

/-- With a struct in flight the signals of `temp_data` do not survive. -/
theorem received_tempData_of_some (machine other : Machine) {structs : List ProcInfo}
    (some : structs ≠ []) :
    (machine.received structs).tempData = (other.received structs).tempData := by
  induction structs using List.reverseRecOn with
  | nil => exact absurd rfl some
  | append_singleton structs data _ih =>
      rw [received_append, received_append, afterServe_tempData, afterServe_tempData]

theorem promised_of_same {machine other : Machine} (reader : Host)
    (same : machine.listMSI = other.listMSI) (structs : List ProcInfo) :
    promised reader machine structs = promised reader other structs := by
  induction structs generalizing machine other with
  | nil => rfl
  | cons data rest ih =>
      have replies : machine.replies data = other.replies data := by
        unfold Machine.replies
        rw [same]
      have later : (machine.afterServe data).listMSI = (other.afterServe data).listMSI := by
        rw [afterServe_listMSI, afterServe_listMSI, same]
      rw [promised, promised, replies, ih later]

section Receiver

variable {setup : Setup} {x : Host} {done : List (Operation Host Int)}
variable {outputs : List Output} {s : System}

/-- The receiver may change its signals while a struct is in flight to it. -/
theorem Refines.receiver (refines : Refines setup x done outputs s)
    (some : s.inbox x.peer ≠ []) (machine : Machine)
    (entries : machine.listMSI = (s.machine x.peer).listMSI) (menu : machine.menu = .prompt)
    {shown : List Output} (silent : answered shown = []) :
    Refines setup x done (outputs ++ shown) (s.put x.peer machine) := by
  have own : (s.put x.peer machine).machine x = s.machine x := by
    have unchanged := System.put_machine_peer s x.peer machine
    rw [Host.peer_peer] at unchanged
    exact unchanged
  have drainedOwn : (s.put x.peer machine).drained x = s.drained x := by
    unfold System.drained
    rw [own, System.put_inbox]
  have drainedPeer : (s.put x.peer machine).drained x.peer =
      machine.received (s.inbox x.peer) := by
    unfold System.drained
    rw [System.put_machine_self, System.put_inbox]
  have signals : (machine.received (s.inbox x.peer)).tempData =
      (s.drained x.peer).tempData := received_tempData_of_some _ _ some
  refine ⟨refines.ownInbox, ?_, ?_, ?_, ?_⟩
  · rw [System.put_machine_self]
    exact menu
  · apply refines.agrees.of_same
    · intro z
      rcases Host.eq_or_eq_peer x z with rfl | rfl
      · rw [drainedOwn]
      · rw [drainedPeer]
        exact received_listMSI_of_same entries _
    · intro z index off
      rcases Host.eq_or_eq_peer x z with rfl | rfl
      · rw [drainedOwn]
        exact off
      · rw [drainedPeer, signals]
        exact off
  · rw [answered_append, silent, List.append_nil, System.put_machine_self, System.put_inbox,
      promised_of_same x entries]
    exact refines.replies
  · intro z
    rcases Host.eq_or_eq_peer x z with rfl | rfl
    · rw [drainedOwn]
      exact refines.counted z
    · rw [drainedPeer, signals]
      exact refines.counted x.peer

end Receiver

/-! ### One direction at a time -/

theorem operations_own (setup : Setup) (event : Event) :
    ∀ operation ∈ event.operations setup, operation.cache = event.host := by
  intro operation member
  unfold Event.operations at member
  split at member
  · obtain ⟨page, _listed, rfl⟩ := List.mem_map.mp member
    rfl
  · obtain ⟨page, _listed, rfl⟩ := List.mem_map.mp member
    rfl
  · cases member

/-- The page accesses `done`, made one after the other, explain the system.  For each
machine they are the accesses of its own commands in their order, as far as it has come. -/
structure Concurrent (setup : Setup) (x : Host) (done : List (Operation Host Int))
    (events : List Event) (outputs : List Output) (s : System) : Prop where
  refines : Refines setup x done outputs s.prompted
  commanded : ∀ z, programOf z (operations setup events) =
    programOf z done ++ (s.machine z).menu.remaining setup z
  inRange : ∀ operation ∈ operations setup events, setup.InRange operation.page
  issued : (∀ event ∈ events, event.Single setup) → done = operations setup events

section Events

variable {setup : Setup} {x : Host} {done : List (Operation Host Int)}
variable {events : List Event} {outputs : List Output} {s : System}

/-- A machine that has received everything may be the one that sends next. -/
theorem Concurrent.handOver (concurrent : Concurrent setup x done events outputs s)
    {z : Host} (empty : s.inbox z = []) : Refines setup z done outputs s.prompted := by
  rcases Host.eq_or_eq_peer x z with rfl | rfl
  · exact concurrent.refines
  · apply concurrent.refines.handOver
    intro w
    refine ⟨rfl, ?_⟩
    rcases Host.eq_or_eq_peer x w with rfl | rfl
    · exact concurrent.refines.ownInbox
    · exact empty

/-- A step of machine `z` that makes the accesses `made`. -/
theorem Concurrent.extend (concurrent : Concurrent setup x done events outputs s)
    {event : Event} {after : System} {shown : List Output} {w : Host}
    {made : List (Operation Host Int)}
    (refines : Refines setup w (done ++ made) (outputs ++ shown) after.prompted)
    (own : ∀ operation ∈ made, operation.cache = event.host)
    (account : (s.machine event.host).menu.remaining setup event.host ++
        event.operations setup =
      made ++ (after.machine event.host).menu.remaining setup event.host)
    (other : after.machine event.host.peer = s.machine event.host.peer)
    (ranged : ∀ operation ∈ event.operations setup, setup.InRange operation.page)
    (whole : event.Single setup → made = event.operations setup) :
    Concurrent setup w (done ++ made) (events ++ [event]) (outputs ++ shown) after := by
  refine ⟨refines, ?_, ?_, ?_⟩
  · intro z
    rw [operations_append, programOf_append, programOf_append, concurrent.commanded z]
    rcases Host.eq_or_eq_peer event.host z with rfl | rfl
    · rw [programOf_own (operations_own setup event), programOf_own own, List.append_assoc,
        account, List.append_assoc]
    · rw [programOf_foreign (Host.peer_ne _) (operations_own setup event),
        programOf_foreign (Host.peer_ne _) own, other, List.append_nil, List.append_nil]
  · intro operation member
    rw [operations_append] at member
    rcases List.mem_append.mp member with earlier | new
    · exact concurrent.inRange operation earlier
    · exact ranged operation new
  · intro single
    have last := single event (List.mem_append_right _ List.mem_cons_self)
    have earlier := concurrent.issued
      (fun past member => single past (List.mem_append_left _ member))
    rw [operations_append, earlier, whole last]

section Accessing

variable {z : Host} {page : Int}

theorem Concurrent.load (concurrent : Concurrent setup x done events outputs s)
    (empty : s.inbox z = []) (inRange : setup.InRange page) (held waiting : Menu) :
    Refines setup z (done ++ [⟨z, page, .load⟩])
      (outputs ++ (s.apply z ((s.machine z).pageRead setup page held waiting)).2)
      (s.apply z ((s.machine z).pageRead setup page held waiting)).1.prompted := by
  have moved := (concurrent.handOver empty).load inRange .prompt .prompt
  rw [prompted_machine, pageRead_prompted setup (s.machine z) page held waiting] at moved
  rw [(apply_prompted s z _).1, (apply_prompted s z _).2]
  exact moved

theorem Concurrent.store (concurrent : Concurrent setup x done events outputs s)
    (empty : s.inbox z = []) (inRange : setup.InRange page) (message : List UInt8)
    (next : Menu) :
    Refines setup z (done ++ [⟨z, page, .store⟩])
      (outputs ++ (s.apply z ((s.machine z).pageWrite setup page message next)).2)
      (s.apply z ((s.machine z).pageWrite setup page message next)).1.prompted := by
  have moved := (concurrent.handOver empty).store inRange message .prompt
  rw [(apply_prompted s z _).1, (apply_prompted s z _).2]
  exact moved

/-- A step of the sender that its entries and its signals do not show. -/
theorem Concurrent.silent (concurrent : Concurrent setup x done events outputs s)
    (empty : s.inbox z = []) {machine : Machine}
    (entries : machine.listMSI = (s.machine z).listMSI)
    (signals : machine.tempData.readSignal = (s.machine z).tempData.readSignal)
    (count : machine.tempData.pageCount = (s.machine z).tempData.pageCount) :
    Refines setup z (done ++ []) (outputs ++ (s.apply z (machine, .silent)).2)
      (s.apply z (machine, .silent)).1.prompted := by
  rw [List.append_nil, (apply_prompted s z _).1, (apply_prompted s z _).2]
  have same : ∀ index, (s.machine z).tempData.readSignal index = 0 →
      machine.prompted.tempData.readSignal index = 0 := by
    intro index off
    rw [prompted_tempData, signals]
    exact off
  exact (concurrent.handOver empty).silent entries same count

/-- A blocked menu of either machine reads its reply. -/
theorem Concurrent.display (concurrent : Concurrent setup x done events outputs s)
    (index : Int) (next : Menu) (received left : List UInt8) :
    ∃ w, Refines setup w (done ++ [])
      (outputs ++ ((s.unread z left).apply z
        (menuReceive setup index next received (s.machine z))).2)
      ((s.unread z left).apply z
        (menuReceive setup index next received (s.machine z))).1.prompted := by
  rw [List.append_nil, (apply_prompted (s.unread z left) z _).1,
    (apply_prompted (s.unread z left) z _).2]
  by_cases empty : s.inbox z = []
  · have same := concurrent.handOver empty
    have unread : Refines setup z done outputs (s.unread z left).prompted :=
      ⟨same.ownInbox, same.peerMenu, same.agrees, same.replies, same.counted⟩
    refine ⟨z, unread.display rfl ?_ rfl⟩
    intro page off
    rw [prompted_tempData, menuReceive_readSignal]
    by_cases named : page = index
    · rw [named, Function.update_self]
    · rw [Function.update_of_ne named]
      exact off
  · have other : z = x.peer := by
      rcases Host.eq_or_eq_peer x z with rfl | other
      · exact absurd concurrent.refines.ownInbox empty
      · exact other
    subst other
    have same := concurrent.refines
    have unread : Refines setup x done outputs (s.unread x.peer left).prompted :=
      ⟨same.ownInbox, same.peerMenu, same.agrees, same.replies, same.counted⟩
    have silent : answered [.displayed x.peer
        (cString (memcpy (s.machine x.peer).recvMessage 0 received) 0 setup.pageSize)] = [] := rfl
    exact ⟨x, unread.receiver empty
      (menuReceive setup index next received (s.machine x.peer)).1.prompted rfl rfl silent⟩

end Accessing

theorem Concurrent.read (concurrent : Concurrent setup x done events outputs s) (z : Host)
    {page : Int} (ready : (s.machine z).menu = .prompt) (commandable : setup.Commandable page)
    (empty : s.inbox z = []) :
    ∃ w next, Concurrent setup w next (events ++ [.read z page])
      (outputs ++ (s.apply z (menuRead setup page (s.machine z))).2)
      (s.apply z (menuRead setup page (s.machine z))).1 := by
  rcases commandable with inRange | ⟨rfl, fits⟩
  · rw [menuRead_inRange inRange]
    refine ⟨z, _, concurrent.extend (concurrent.load empty inRange .prompt (.awaitReply page))
      (by simp [Event.host]) ?_ (System.apply_machine_peer ..) ?_
      (fun _ => by simp [Event.operations, pagesOf_inRange_eq inRange, accesses])⟩
    · simp only [Event.host, System.apply_machine_self, ready]
      simp only [Menu.remaining, Event.operations, pagesOf_inRange_eq inRange, accesses,
        List.map_cons, List.map_nil, List.nil_append]
      rcases pageRead_menu setup page .prompt (.awaitReply page) (s.machine z) with menu | menu
      · rw [menu, List.append_nil]
      · rw [menu, List.append_nil]
    · intro operation member
      obtain ⟨index, named, rfl⟩ := List.mem_map.mp member
      exact pagesOf_inRange (.inl inRange) named
  · rw [menuRead_all]
    refine ⟨z, _, concurrent.extend (concurrent.silent empty rfl rfl rfl)
      (by simp) ?_ (System.apply_machine_peer ..) ?_ (fun single => absurd single.1 (by decide))⟩
    · simp only [Event.host, System.apply_machine_self, ready]
      rfl
    · intro operation member
      obtain ⟨index, named, rfl⟩ := List.mem_map.mp member
      exact pagesOf_inRange (.inr ⟨rfl, fits⟩) named

theorem Concurrent.write (concurrent : Concurrent setup x done events outputs s) (z : Host)
    {page : Int} (message : List UInt8) (ready : (s.machine z).menu = .prompt)
    (commandable : setup.Commandable page) (empty : s.inbox z = []) :
    ∃ w next, Concurrent setup w next (events ++ [.write z page message])
      (outputs ++ (s.apply z (menuWrite setup page message (s.machine z))).2)
      (s.apply z (menuWrite setup page message (s.machine z))).1 := by
  rcases commandable with inRange | ⟨rfl, fits⟩
  · rw [menuWrite_inRange inRange]
    refine ⟨z, _, concurrent.extend (concurrent.store empty inRange message .prompt)
      (by simp [Event.host]) ?_ (System.apply_machine_peer ..) ?_
      (fun _ => by simp [Event.operations, pagesOf_inRange_eq inRange, accesses])⟩
    · simp only [Event.host, System.apply_machine_self, ready]
      simp only [Menu.remaining, Event.operations, pagesOf_inRange_eq inRange, accesses,
        List.map_cons, List.map_nil, List.nil_append]
      exact (List.append_nil _).symm
    · intro operation member
      obtain ⟨index, named, rfl⟩ := List.mem_map.mp member
      exact pagesOf_inRange (.inl inRange) named
  · rw [menuWrite_all]
    refine ⟨z, _, concurrent.extend (concurrent.silent empty rfl rfl rfl)
      (by simp) ?_ (System.apply_machine_peer ..) ?_ (fun single => absurd single.1 (by decide))⟩
    · simp only [Event.host, System.apply_machine_self, ready]
      rfl
    · intro operation member
      obtain ⟨index, named, rfl⟩ := List.mem_map.mp member
      exact pagesOf_inRange (.inr ⟨rfl, fits⟩) named

/-- The page a loop visits next is one that its command named. -/
theorem Concurrent.next_inRange (concurrent : Concurrent setup x done events outputs s)
    {z : Host} {operation : Operation Host Int} {rest : List (Operation Host Int)}
    (left : (s.machine z).menu.remaining setup z = operation :: rest) :
    setup.InRange operation.page := by
  apply concurrent.inRange
  have member : operation ∈ programOf z (operations setup events) := by
    rw [concurrent.commanded z, left]
    exact List.mem_append_right _ List.mem_cons_self
  exact (List.mem_filter.mp member).1

theorem Concurrent.counted (concurrent : Concurrent setup x done events outputs s) {z : Host}
    (empty : s.inbox z = []) : (s.machine z).tempData.pageCount = setup.pageCount :=
  (concurrent.handOver empty).ownCount

theorem Concurrent.readAll (concurrent : Concurrent setup x done events outputs s) {z : Host}
    {count : Int} (menu : (s.machine z).menu = .readAll count) (empty : s.inbox z = []) :
    ∃ w next, Concurrent setup w next (events ++ [.iterate z])
      (outputs ++ (s.apply z (menuReadAll setup count (s.machine z))).2)
      (s.apply z (menuReadAll setup count (s.machine z))).1 := by
  have own := concurrent.counted empty
  by_cases more : count < setup.pageCount
  · have left : (s.machine z).menu.remaining setup z =
        ⟨z, count, .load⟩ :: accesses z .load (setup.pagesFrom (count + 1)) := by
      rw [menu, Menu.remaining, pagesFrom_more more]
      rfl
    rw [menuReadAll_more (by rw [own]; exact more)]
    refine ⟨z, _, concurrent.extend (concurrent.load empty (concurrent.next_inRange left)
      (.readAll (count + 1)) (.awaitReplyAll count)) (by simp [Event.host]) ?_
      (System.apply_machine_peer ..) (by simp [Event.operations])
      (fun single => single.elim)⟩
    simp only [Event.host, System.apply_machine_self, left, Event.operations, List.append_nil]
    rcases pageRead_menu setup count (.readAll (count + 1)) (.awaitReplyAll count)
      (s.machine z) with held | waiting
    · rw [held]
      rfl
    · rw [waiting]
      rfl
  · rw [menuReadAll_done (by rw [own]; exact more)]
    refine ⟨z, _, concurrent.extend (concurrent.silent empty rfl rfl rfl)
      (by simp) ?_ (System.apply_machine_peer ..) (by simp [Event.operations])
      (fun single => single.elim)⟩
    simp only [Event.host, System.apply_machine_self, menu, Menu.remaining,
      pagesFrom_done more]
    rfl

theorem Concurrent.writeAll (concurrent : Concurrent setup x done events outputs s)
    {z : Host} {count : Int} {message : List UInt8}
    (menu : (s.machine z).menu = .writeAll count message) (empty : s.inbox z = []) :
    ∃ w next, Concurrent setup w next (events ++ [.iterate z])
      (outputs ++ (s.apply z (menuWriteAll setup count message (s.machine z))).2)
      (s.apply z (menuWriteAll setup count message (s.machine z))).1 := by
  have own := concurrent.counted empty
  by_cases more : count < setup.pageCount
  · have left : (s.machine z).menu.remaining setup z =
        ⟨z, count, .store⟩ :: accesses z .store (setup.pagesFrom (count + 1)) := by
      rw [menu, Menu.remaining, pagesFrom_more more]
      rfl
    rw [menuWriteAll_more message (by rw [own]; exact more)]
    refine ⟨z, _, concurrent.extend (concurrent.store empty (concurrent.next_inRange left)
      message (.writeAll (count + 1) message)) (by simp [Event.host]) ?_
      (System.apply_machine_peer ..) (by simp [Event.operations])
      (fun single => single.elim)⟩
    simp only [Event.host, System.apply_machine_self, left, Event.operations, List.append_nil]
    rfl
  · rw [menuWriteAll_done message (by rw [own]; exact more)]
    refine ⟨z, _, concurrent.extend (concurrent.silent empty rfl rfl rfl)
      (by simp) ?_ (System.apply_machine_peer ..) (by simp [Event.operations])
      (fun single => single.elim)⟩
    simp only [Event.host, System.apply_machine_self, menu, Menu.remaining,
      pagesFrom_done more]
    rfl

theorem remaining_of_awaiting (setup : Setup) (x : Host) {menu next : Menu} {index : Int}
    (waiting : menu.awaiting = some (index, next)) :
    next.remaining setup x = menu.remaining setup x := by
  unfold Menu.awaiting at waiting
  split at waiting
  · cases waiting
    rfl
  · cases waiting
    rfl
  · cases waiting

theorem Concurrent.receive (concurrent : Concurrent setup x done events outputs s) {z : Host}
    {index : Int} {next : Menu}
    (waiting : (s.machine z).menu.awaiting = some (index, next)) (received left : List UInt8) :
    ∃ w next', Concurrent setup w next' (events ++ [.receive z])
      (outputs ++ ((s.unread z left).apply z
        (menuReceive setup index next received (s.machine z))).2)
      ((s.unread z left).apply z (menuReceive setup index next received (s.machine z))).1 := by
  obtain ⟨w, refines⟩ := concurrent.display (z := z) index next received left
  refine ⟨w, _, concurrent.extend refines (by simp) ?_ (System.apply_machine_peer ..)
    (by simp [Event.operations]) (fun _ => rfl)⟩
  simp only [Event.host, System.apply_machine_self, menuReceive_menu]
  rw [remaining_of_awaiting setup z waiting]
  exact List.append_nil _

theorem Concurrent.serve (concurrent : Concurrent setup x done events outputs s) {z : Host}
    {data : ProcInfo} {rest : List ProcInfo} (oldest : s.inbox z = data :: rest) :
    ∃ w next, Concurrent setup w next (events ++ [.serve z])
      (outputs ++ (s.serve setup z data rest).2) (s.serve setup z data rest).1 := by
  have receiver : z = x.peer := by
    rcases Host.eq_or_eq_peer x z with rfl | other
    · have empty : s.inbox z = [] := concurrent.refines.ownInbox
      rw [empty] at oldest
      cases oldest
    · exact other
  subst receiver
  have refines := concurrent.refines.serve oldest
  rw [← (serve_prompted ..).1, ← (serve_prompted ..).2] at refines
  rw [← List.append_nil done] at refines
  refine ⟨x, _, concurrent.extend refines (by simp) ?_ (System.serve_machine_peer ..)
    (by simp [Event.operations]) (fun _ => rfl)⟩
  simp only [Event.host, System.serve_machine_self]
  exact List.append_nil _

end Events

/-! ### Runs -/

theorem Cold.concurrent {setup : Setup} {s : System} (cold : Cold setup s) :
    Concurrent setup .one [] [] [] s := by
  have prompted : Cold setup s.prompted :=
    ⟨cold.invalid, cold.counted, fun _ => rfl, cold.inboxEmpty, cold.repliesEmpty⟩
  refine ⟨prompted.progress.refines, ?_, ?_, fun _ => rfl⟩
  · intro z
    rw [cold.prompt z]
    rfl
  · intro operation member
    cases member

theorem Concurrent.step {setup : Setup} {x : Host} {done : List (Operation Host Int)}
    {events : List Event} {outputs : List Output} {s after : System} {event : Event}
    {shown : List Output} (concurrent : Concurrent setup x done events outputs s)
    (caughtUp : CaughtUp setup s event) (accepted : step setup s event = some (after, shown)) :
    ∃ w next, Concurrent setup w next (events ++ [event]) (outputs ++ shown) after := by
  cases Performs.of_step accepted with
  | read z page ready => exact concurrent.read z ready caughtUp.1 caughtUp.2
  | write z page message ready =>
      exact concurrent.write z message ready caughtUp.1 caughtUp.2
  | select z page _ready => exact caughtUp.elim
  | enter z message _place => exact caughtUp.elim
  | readAll z count menu => exact concurrent.readAll menu caughtUp
  | writeAll z count message menu => exact concurrent.writeAll menu caughtUp
  | receive z index next waiting _available =>
      exact concurrent.receive waiting ((s.replies z).take setup.pageSize)
        ((s.replies z).drop setup.pageSize)
  | serve z data rest oldest => exact concurrent.serve oldest

theorem caughtUp_concurrent {setup : Setup} {start final : System} {events : List Event}
    {outputs : List Output} (cold : Cold setup start)
    (run : Run (step setup) (CaughtUp setup) start events outputs final) :
    ∃ x done, Concurrent setup x done events outputs final := by
  refine run.history_invariant
    (fun past shownBefore s => ∃ x done, Concurrent setup x done past shownBefore s)
    ⟨.one, [], cold.concurrent⟩ ?_
  rintro past shownBefore before event after shown ⟨x, done, concurrent⟩ caughtUp accepted
  exact concurrent.step caughtUp accepted

theorem Concurrent.agrees {setup : Setup} {x : Host} {done : List (Operation Host Int)}
    {events : List Event} {outputs : List Output} {s : System}
    (concurrent : Concurrent setup x done events outputs s) :
    Agrees setup (tableAfter done) s.drained := by
  apply concurrent.refines.agrees.of_same
  · intro z
    rw [drained_prompted]
    rfl
  · intro z index off
    rw [drained_prompted] at off
    exact off

/-- In a run in which every menu accesses a page only when nothing is in flight to its
machine, with nothing in flight the tables are those of textbook MSI after the same page
accesses in some order that keeps the order of each machine; the replies are those to the
misses of that order.  For single commands it is the order of the commands. -/
theorem caughtUp_refines_msi {setup : Setup} {start final : System} {events : List Event}
    {outputs : List Output} (cold : Cold setup start)
    (run : Run (step setup) (CaughtUp setup) start events outputs final)
    (drained : Drained final) :
    ∃ done : List (Operation Host Int),
      (∀ x, programOf x (operations setup events) =
        programOf x done ++ (final.machine x).menu.remaining setup x) ∧
      ((∀ event ∈ events, event.Single setup) → done = operations setup events) ∧
      (∀ x page, setup.InRange page → (final.machine x).listMSI page =
        modeEntry ((tableAfter done page).mode x)) ∧
      (∀ page, setup.InRange page →
        ((final.machine .one).listMSI page, (final.machine .two).listMSI page) ∈
          [(MSIList.invalid, MSIList.invalid), (.modified, .invalid), (.invalid, .modified),
            (.shared, .shared)]) ∧
      answered outputs = misses done := by
  obtain ⟨x, done, concurrent⟩ := caughtUp_concurrent cold run
  have entries : ∀ z page, setup.InRange page → (final.machine z).listMSI page =
      modeEntry ((tableAfter done page).mode z) := by
    intro z page inRange
    rw [← concurrent.agrees.entries z page inRange, drained_of_empty (drained z)]
  refine ⟨done, concurrent.commanded, concurrent.issued, entries, ?_, ?_⟩
  · intro page inRange
    rw [entries .one page inRange, entries .two page inRange]
    cases tableAfter done page with
    | unowned => simp [Line.mode, modeEntry]
    | owned owner => cases owner <;> simp [Line.mode, modeEntry]
    | shared => simp [Line.mode, modeEntry]
  · have replies := concurrent.refines.replies
    rw [prompted_inbox, drained x.peer, promised, List.append_nil] at replies
    exact replies

/-- Machine 1 writes both pages before machine 2 receives either, and writes page 1 again
while machine 2 is blocked on its read of page 0. -/
def overlappingCommands : List Event :=
  [.write .one 0 [97], .write .one 1 [98], .serve .two, .serve .two, .read .two 0,
    .serve .one, .write .one 1 [99], .receive .two, .serve .two, .read .two 1, .serve .one]

private theorem overlappingCommands_run :
    (play (CaughtUp twoPages) overlappingCommands).isSome = true := by
  decide

theorem caughtUp_refines_msi_overlapping :
    ∃ done : List (Operation Host Int),
      (∀ x, programOf x (operations twoPages overlappingCommands) =
        programOf x done ++ ((reached _ _ overlappingCommands_run).machine x).menu.remaining
          twoPages x) ∧
      ((∀ event ∈ overlappingCommands, event.Single twoPages) →
        done = operations twoPages overlappingCommands) ∧
      (∀ x page, twoPages.InRange page →
        ((reached _ _ overlappingCommands_run).machine x).listMSI page =
          modeEntry ((tableAfter done page).mode x)) ∧
      (∀ page, twoPages.InRange page →
        (((reached _ _ overlappingCommands_run).machine .one).listMSI page,
            ((reached _ _ overlappingCommands_run).machine .two).listMSI page) ∈
          [(MSIList.invalid, MSIList.invalid), (.modified, .invalid), (.invalid, .modified),
            (.shared, .shared)]) ∧
      answered ((play (CaughtUp twoPages)
          overlappingCommands).get overlappingCommands_run).2 =
        misses done :=
  caughtUp_refines_msi (freshSystem_initial twoPages).toCold
    (play_run _ _ overlappingCommands_run) (drained_of_hosts (by decide) (by decide))

end LKP.Dsm
