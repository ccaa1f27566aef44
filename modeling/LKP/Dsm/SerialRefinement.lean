import LKP.Dsm.Serial

/-
Serial runs refine textbook MSI.

The machine that executes a command is fixed while it does; its page accesses so
far, and those its menu has yet to make, add up to the commands issued.  Every step
either makes the next page access or leaves the drained machines as they are.
-/

set_option autoImplicit false

namespace LKP.Dsm

open TransitionRun CBuffer TwoCacheMsi

/-- Machine `x` executes, its peer receives, and after the page accesses `done` the two
stand where textbook MSI stands, with every miss answered or about to be. -/
structure Refines (setup : Setup) (x : Host) (done : List (Operation Host Int))
    (outputs : List Output) (s : System) : Prop where
  ownInbox : s.inbox x = []
  peerMenu : (s.machine x.peer).menu = .prompt
  agrees : Agrees setup (tableAfter done) s.drained
  replies : answered outputs ++ promised x (s.machine x.peer) (s.inbox x.peer) = misses done
  counted : ∀ z, (s.drained z).tempData.pageCount = setup.pageCount

section Access

variable {setup : Setup} {x : Host} {done : List (Operation Host Int)}
variable {outputs : List Output} {s : System} {page : Int}

theorem Refines.own (refines : Refines setup x done outputs s) : s.drained x = s.machine x :=
  drained_of_empty refines.ownInbox

theorem Refines.ownCount (refines : Refines setup x done outputs s) :
    (s.machine x).tempData.pageCount = setup.pageCount := by
  rw [← refines.own]
  exact refines.counted x

/-- A change of the executing machine that its entries and read signals do not show. -/
private theorem refines_put (refines : Refines setup x done outputs s) {machine : Machine}
    (entries : machine.listMSI = (s.machine x).listMSI)
    (signals : ∀ index, (s.machine x).tempData.readSignal index = 0 →
      machine.tempData.readSignal index = 0)
    (count : machine.tempData.pageCount = (s.machine x).tempData.pageCount)
    {shown : List Output} (silent : answered shown = []) :
    Refines setup x done (outputs ++ shown) (s.put x machine) := by
  have own : (s.put x machine).drained x = machine := by
    rw [drained_of_empty (by simpa using refines.ownInbox), System.put_machine_self]
  have other : (s.put x machine).drained x.peer = s.drained x.peer := by
    unfold System.drained
    rw [System.put_machine_peer, System.put_inbox]
  refine ⟨refines.ownInbox, ?_, ?_, ?_, ?_⟩
  · rw [System.put_machine_peer]
    exact refines.peerMenu
  · apply refines.agrees.of_same
    · intro z
      rcases Host.eq_or_eq_peer x z with rfl | rfl
      · rw [own, refines.own]
        exact entries
      · rw [other]
    · intro z index off
      rcases Host.eq_or_eq_peer x z with rfl | rfl
      · rw [refines.own] at off
        rw [own]
        exact signals index off
      · rw [other]
        exact off
  · rw [answered_append, silent, List.append_nil, System.put_machine_peer, System.put_inbox]
    exact refines.replies
  · intro z
    rcases Host.eq_or_eq_peer x z with rfl | rfl
    · rw [own, count]
      exact refines.ownCount
    · rw [other]
      exact refines.counted x.peer

theorem Refines.silent (refines : Refines setup x done outputs s) {machine : Machine}
    (entries : machine.listMSI = (s.machine x).listMSI)
    (signals : ∀ index, (s.machine x).tempData.readSignal index = 0 →
      machine.tempData.readSignal index = 0)
    (count : machine.tempData.pageCount = (s.machine x).tempData.pageCount) :
    Refines setup x done (outputs ++ (s.apply x (machine, .silent)).2)
      (s.apply x (machine, .silent)).1 :=
  refines_put refines entries signals count rfl

theorem Refines.display (refines : Refines setup x done outputs s) {machine : Machine}
    {text : List UInt8} (entries : machine.listMSI = (s.machine x).listMSI)
    (signals : ∀ index, (s.machine x).tempData.readSignal index = 0 →
      machine.tempData.readSignal index = 0)
    (count : machine.tempData.pageCount = (s.machine x).tempData.pageCount) :
    Refines setup x done (outputs ++ (s.apply x (machine, .display text)).2)
      (s.apply x (machine, .display text)).1 :=
  refines_put refines entries signals count rfl

private theorem posted_own (refines : Refines setup x done outputs s) (machine : Machine)
    (data : ProcInfo) : ((s.put x machine).post x data).drained x = machine := by
  rw [drained_of_empty, System.post_machine, System.put_machine_self]
  rw [System.post_inbox_self, System.put_inbox]
  exact refines.ownInbox

private theorem posted_peer (s : System) (x : Host) (machine : Machine) (data : ProcInfo) :
    ((s.put x machine).post x data).drained x.peer =
      (s.drained x.peer).afterServe data := by
  unfold System.drained
  rw [System.post_machine, System.put_machine_peer, System.post_inbox_peer, System.put_inbox,
    received_append]

private theorem refines_post (refines : Refines setup x done outputs s)
    {operation : Operation Host Int} {machine : Machine} {data : ProcInfo}
    (agrees : Agrees setup (tableAfter (done ++ [operation]))
      ((s.put x machine).post x data).drained)
    (reply : (if (s.drained x.peer).replies data then [(x, data.pageNum)] else []) =
      (tableAfter done).missed operation)
    (count : machine.tempData.pageCount = (s.machine x).tempData.pageCount)
    (sentCount : data.pageCount = (s.machine x).tempData.pageCount) :
    Refines setup x (done ++ [operation]) (outputs ++ [.sent x data])
      ((s.put x machine).post x data) := by
  refine ⟨?_, ?_, agrees, ?_, ?_⟩
  · rw [System.post_inbox_self, System.put_inbox]
    exact refines.ownInbox
  · rw [System.post_machine, System.put_machine_peer]
    exact refines.peerMenu
  · rw [System.post_machine, System.put_machine_peer, System.post_inbox_peer, System.put_inbox,
      promised_append, misses_append, ← refines.replies, answered_append, ← reply,
      List.append_assoc, List.append_assoc]
    rfl
  · intro z
    rcases Host.eq_or_eq_peer x z with rfl | rfl
    · rw [posted_own refines, count]
      exact refines.ownCount
    · rw [posted_peer, afterServe_tempData, sentCount]
      exact refines.ownCount

theorem Refines.load (refines : Refines setup x done outputs s) (inRange : setup.InRange page)
    (held waiting : Menu) :
    Refines setup x (done ++ [⟨x, page, .load⟩])
      (outputs ++ (s.apply x ((s.machine x).pageRead setup page held waiting)).2)
      (s.apply x ((s.machine x).pageRead setup page held waiting)).1 := by
  have absent := refines.agrees.absent_iff (x := x) inRange
  rw [refines.own] at absent
  by_cases missing : (tableAfter done page).mode x = .invalid
  · have missed : (tableAfter done).missed ⟨x, page, .load⟩ = [(x, page)] :=
      if_pos (decide_eq_true ⟨rfl, missing⟩)
    rw [Machine.pageRead, if_pos (absent.mpr missing)]
    apply refines_post refines
    · rw [tableAfter_append]
      apply refines.agrees.load_miss inRange missing
      · rw [posted_own refines, refines.own]
      · rw [posted_peer, refines.own]
    · have replies : (s.drained x.peer).replies
          (readRequest setup page (s.machine x).tempData) = true := by
        unfold Machine.replies
        rw [readRequest_pageNum]
        rcases refines.agrees.peer_of_miss inRange missing with modified | invalid
        · rw [modified, serverReply_modified, readRequest_pageNum,
            if_pos (readRequest_readSignal ..)]
          rfl
        · rw [invalid, serverReply_invalid, readRequest_pageNum,
            if_pos (readRequest_readSignal ..)]
          rfl
      rw [missed, if_pos replies]
      rfl
    · rfl
    · rfl
  · have missed : (tableAfter done).missed ⟨x, page, .load⟩ = [] :=
      if_neg (by simp [Line.misses, missing])
    have same : Refines setup x (done ++ [⟨x, page, .load⟩]) outputs s :=
      ⟨refines.ownInbox, refines.peerMenu,
        by
          rw [tableAfter_append, apply_load_hit missing]
          exact refines.agrees,
        by
          rw [misses_append, missed, List.append_nil]
          exact refines.replies,
        refines.counted⟩
    rw [Machine.pageRead, if_neg (fun invalid => missing (absent.mp invalid))]
    split
    · exact same.display rfl (fun _ off => off) rfl
    · exact same.silent rfl (fun _ off => off) rfl

theorem Refines.store (refines : Refines setup x done outputs s)
    (inRange : setup.InRange page) (message : List UInt8) (next : Menu) :
    Refines setup x (done ++ [⟨x, page, .store⟩])
      (outputs ++ (s.apply x ((s.machine x).pageWrite setup page message next)).2)
      (s.apply x ((s.machine x).pageWrite setup page message next)).1 := by
  have off := refines.agrees.store_off (x := x) inRange
  rw [refines.own] at off
  apply refines_post refines
  · rw [tableAfter_append]
    apply refines.agrees.store message inRange
    · rw [posted_own refines, refines.own]
    · rw [posted_peer, refines.own]
  · have silent : (s.drained x.peer).replies
        (writeRequest setup ((s.machine x).listMSI page) page (s.machine x).tempData) =
          false := by
      unfold Machine.replies
      rw [serverReply_of_read_off]
      · rfl
      · rw [writeRequest_pageNum, off]
        decide
    have stores : (tableAfter done).missed ⟨x, page, .store⟩ = [] :=
      if_neg (by simp [Line.misses])
    rw [silent, stores]
    rfl
  · exact writeRequest_pageCount ..
  · exact writeRequest_pageCount ..

theorem Refines.serve (refines : Refines setup x done outputs s) {data : ProcInfo}
    {rest : List ProcInfo} (oldest : s.inbox x.peer = data :: rest) :
    Refines setup x done (outputs ++ (s.serve setup x.peer data rest).2)
      (s.serve setup x.peer data rest).1 := by
  have machine : (s.serve setup x.peer data rest).1.machine x = s.machine x := by
    have unchanged := System.serve_machine_peer s x.peer data setup rest
    rw [Host.peer_peer] at unchanged
    exact unchanged
  have inbox : (s.serve setup x.peer data rest).1.inbox x = [] := by
    have unchanged := System.serve_inbox_peer s x.peer data setup rest
    rw [Host.peer_peer] at unchanged
    rw [unchanged]
    exact refines.ownInbox
  have drained : (s.serve setup x.peer data rest).1.drained = s.drained := by
    funext z
    rcases Host.eq_or_eq_peer x z with rfl | rfl
    · rw [drained_of_empty inbox, machine, refines.own]
    · unfold System.drained
      rw [System.serve_machine_self, System.serve_inbox_self, oldest]
      rfl
  refine ⟨inbox, ?_, ?_, ?_, ?_⟩
  · rw [System.serve_machine_self]
    exact refines.peerMenu
  · rw [drained]
    exact refines.agrees
  · have earlier := refines.replies
    rw [oldest, promised, ← List.append_assoc] at earlier
    rw [System.serve_machine_self, System.serve_inbox_self, answered_append, ← earlier]
    congr 2
    rw [System.serve_outputs, Host.peer_peer]
    unfold Machine.replies
    rw [← serverReply_isSome _ _
      (cString (s.machine x.peer).addr data.accessPage (setup.rest data.accessPage))]
    unfold System.answer
    split
    · rename_i silent
      rw [silent]
      rfl
    · rename_i text replied
      rw [replied]
      rfl
  · rw [drained]
    exact refines.counted

/-- Between commands either machine may execute the next one. -/
theorem Refines.handOver (refines : Refines setup x done outputs s) (settled : Settled s)
    (z : Host) : Refines setup z done outputs s := by
  refine ⟨(settled z).2, (settled z.peer).1, refines.agrees, ?_, refines.counted⟩
  have earlier := refines.replies
  rw [(settled x.peer).2, promised, List.append_nil] at earlier
  rw [(settled z.peer).2, promised, List.append_nil]
  exact earlier

end Access

/-! ### Commands -/

structure Progress (setup : Setup) (x : Host) (done : List (Operation Host Int))
    (events : List Event) (outputs : List Output) (s : System) : Prop where
  refines : Refines setup x done outputs s
  commanded : operations setup events = done ++ (s.machine x).menu.remaining setup x
  inRange : ∀ operation ∈ operations setup events, setup.InRange operation.page

theorem pageRead_menu (setup : Setup) (page : Int) (held waiting : Menu) (machine : Machine) :
    (machine.pageRead setup page held waiting).1.menu = held ∨
      (machine.pageRead setup page held waiting).1.menu = waiting := by
  unfold Machine.pageRead
  split
  · exact .inr rfl
  · split
    · exact .inl rfl
    · exact .inl rfl

section Events

variable {setup : Setup} {x : Host} {done : List (Operation Host Int)}
variable {events : List Event} {outputs : List Output} {s : System}

/-- A machine that is not at its prompt is the one that executes. -/
theorem Refines.executes (refines : Refines setup x done outputs s) {z : Host}
    (busy : (s.machine z).menu ≠ .prompt) : z = x := by
  rcases Host.eq_or_eq_peer x z with same | other
  · exact same
  · rw [other] at busy
    exact absurd refines.peerMenu busy

/-- An event that issues no command keeps the account if it keeps what is left. -/
theorem Progress.continue (progress : Progress setup x done events outputs s) {event : Event}
    (noCommand : event.operations setup = []) {next : List (Operation Host Int)}
    {shown : List Output} {after : System}
    (refines : Refines setup x next (outputs ++ shown) after)
    (same : next ++ (after.machine x).menu.remaining setup x =
      done ++ (s.machine x).menu.remaining setup x) :
    Progress setup x next (events ++ [event]) (outputs ++ shown) after := by
  refine ⟨refines, ?_, ?_⟩
  · rw [operations_append, noCommand, List.append_nil, progress.commanded, same]
  · rw [operations_append, noCommand, List.append_nil]
    exact progress.inRange

theorem Progress.command (progress : Progress setup x done events outputs s)
    (settled : Settled s) {z : Host} {access : Access} {page : Int}
    (commandable : setup.Commandable page) {event : Event}
    (issued : event.operations setup = accesses z access (setup.pagesOf page))
    {next : List (Operation Host Int)} {shown : List Output} {after : System}
    (refines : Refines setup z next (outputs ++ shown) after)
    (same : next ++ (after.machine z).menu.remaining setup z =
      done ++ accesses z access (setup.pagesOf page)) :
    Progress setup z next (events ++ [event]) (outputs ++ shown) after := by
  have before : operations setup events = done := by
    rw [progress.commanded, (settled x).1]
    exact List.append_nil _
  refine ⟨refines, ?_, ?_⟩
  · rw [operations_append, issued, before, same]
  · intro operation member
    rw [operations_append, issued] at member
    rcases List.mem_append.mp member with earlier | new
    · exact progress.inRange operation earlier
    · obtain ⟨index, named, rfl⟩ := List.mem_map.mp new
      exact pagesOf_inRange commandable named

theorem pagesOf_inRange_eq {page : Int} (inRange : setup.InRange page) :
    setup.pagesOf page = [page] := if_neg (Setup.inRange_ne_all inRange)

theorem Progress.next_inRange (progress : Progress setup x done events outputs s)
    {operation : Operation Host Int} {rest : List (Operation Host Int)}
    (left : (s.machine x).menu.remaining setup x = operation :: rest) :
    setup.InRange operation.page := by
  apply progress.inRange
  rw [progress.commanded, left]
  exact List.mem_append_right _ List.mem_cons_self

theorem Progress.read (progress : Progress setup x done events outputs s)
    (settled : Settled s) (z : Host) {page : Int} (commandable : setup.Commandable page) :
    ∃ next, Progress setup z next (events ++ [.read z page])
      (outputs ++ (s.apply z (menuRead setup page (s.machine z))).2)
      (s.apply z (menuRead setup page (s.machine z))).1 := by
  have refines := progress.refines.handOver settled z
  rcases commandable with inRange | ⟨rfl, fits⟩
  · rw [menuRead_inRange inRange]
    refine ⟨_, progress.command settled (.inl inRange) rfl
      (refines.load inRange .prompt (.awaitReply page)) ?_⟩
    rw [System.apply_machine_self, pagesOf_inRange_eq inRange]
    rcases pageRead_menu setup page .prompt (.awaitReply page) (s.machine z) with menu | menu
    · rw [menu]
      exact List.append_nil _
    · rw [menu]
      exact List.append_nil _
  · rw [menuRead_all]
    refine ⟨done, progress.command settled (.inr ⟨rfl, fits⟩) rfl
      (refines.silent rfl (fun _ off => off) rfl) ?_⟩
    rw [System.apply_machine_self]
    rfl

theorem Progress.write (progress : Progress setup x done events outputs s)
    (settled : Settled s) (z : Host) {page : Int} (message : List UInt8)
    (commandable : setup.Commandable page) :
    ∃ next, Progress setup z next (events ++ [.write z page message])
      (outputs ++ (s.apply z (menuWrite setup page message (s.machine z))).2)
      (s.apply z (menuWrite setup page message (s.machine z))).1 := by
  have refines := progress.refines.handOver settled z
  rcases commandable with inRange | ⟨rfl, fits⟩
  · rw [menuWrite_inRange inRange]
    refine ⟨_, progress.command settled (.inl inRange) rfl
      (refines.store inRange message .prompt) ?_⟩
    rw [System.apply_machine_self, pagesOf_inRange_eq inRange]
    exact List.append_nil _
  · rw [menuWrite_all]
    refine ⟨done, progress.command settled (.inr ⟨rfl, fits⟩) rfl
      (refines.silent rfl (fun _ off => off) rfl) ?_⟩
    rw [System.apply_machine_self]
    rfl

theorem Progress.readAll (progress : Progress setup x done events outputs s) {count : Int}
    (menu : (s.machine x).menu = .readAll count) :
    ∃ next, Progress setup x next (events ++ [.iterate x])
      (outputs ++ (s.apply x (menuReadAll setup count (s.machine x))).2)
      (s.apply x (menuReadAll setup count (s.machine x))).1 := by
  by_cases more : count < setup.pageCount
  · have left : (s.machine x).menu.remaining setup x =
        ⟨x, count, .load⟩ :: accesses x .load (setup.pagesFrom (count + 1)) := by
      rw [menu, Menu.remaining, pagesFrom_more more]
      rfl
    rw [menuReadAll_more (by rw [progress.refines.ownCount]; exact more)]
    refine ⟨_, progress.continue rfl (progress.refines.load (progress.next_inRange left)
      (.readAll (count + 1)) (.awaitReplyAll count)) ?_⟩
    rw [System.apply_machine_self, left, List.append_assoc]
    rcases pageRead_menu setup count (.readAll (count + 1)) (.awaitReplyAll count)
      (s.machine x) with held | waiting
    · rw [held]
      rfl
    · rw [waiting]
      rfl
  · rw [menuReadAll_done (by rw [progress.refines.ownCount]; exact more)]
    refine ⟨done, progress.continue rfl
      (progress.refines.silent rfl (fun _ off => off) rfl) ?_⟩
    rw [System.apply_machine_self, menu, Menu.remaining, pagesFrom_done more]
    rfl

theorem Progress.writeAll (progress : Progress setup x done events outputs s) {count : Int}
    {message : List UInt8} (menu : (s.machine x).menu = .writeAll count message) :
    ∃ next, Progress setup x next (events ++ [.iterate x])
      (outputs ++ (s.apply x (menuWriteAll setup count message (s.machine x))).2)
      (s.apply x (menuWriteAll setup count message (s.machine x))).1 := by
  by_cases more : count < setup.pageCount
  · have left : (s.machine x).menu.remaining setup x =
        ⟨x, count, .store⟩ :: accesses x .store (setup.pagesFrom (count + 1)) := by
      rw [menu, Menu.remaining, pagesFrom_more more]
      rfl
    rw [menuWriteAll_more message (by rw [progress.refines.ownCount]; exact more)]
    refine ⟨_, progress.continue rfl (progress.refines.store (progress.next_inRange left)
      message (.writeAll (count + 1) message)) ?_⟩
    rw [System.apply_machine_self, left, List.append_assoc]
    rfl
  · rw [menuWriteAll_done message (by rw [progress.refines.ownCount]; exact more)]
    refine ⟨done, progress.continue rfl
      (progress.refines.silent rfl (fun _ off => off) rfl) ?_⟩
    rw [System.apply_machine_self, menu, Menu.remaining, pagesFrom_done more]
    rfl

theorem Progress.receive (progress : Progress setup x done events outputs s) {index : Int}
    {next : Menu} (waiting : (s.machine x).menu.awaiting = some (index, next))
    (received left : List UInt8) :
    Progress setup x done (events ++ [.receive x])
      (outputs ++ ((s.unread x left).apply x
        (menuReceive setup index next received (s.machine x))).2)
      ((s.unread x left).apply x (menuReceive setup index next received (s.machine x))).1 := by
  have refines : Refines setup x done outputs (s.unread x left) :=
    ⟨progress.refines.ownInbox, progress.refines.peerMenu, progress.refines.agrees,
      progress.refines.replies, progress.refines.counted⟩
  refine progress.continue rfl (refines.display rfl ?_ rfl) ?_
  · intro page off
    change Function.update (s.machine x).tempData.readSignal index 0 page = 0
    by_cases same : page = index
    · rw [same, Function.update_self]
    · rw [Function.update_of_ne same]
      exact off
  · rw [System.apply_machine_self, menuReceive_menu]
    congr 1
    unfold Menu.awaiting at waiting
    split at waiting
    · rename_i awaited menu
      cases waiting
      rw [menu]
      rfl
    · rename_i count menu
      cases waiting
      rw [menu]
      rfl
    · cases waiting

end Events

/-! ### Runs -/

theorem Cold.progress {setup : Setup} {s : System} (cold : Cold setup s) :
    Progress setup .one [] [] [] s := by
  have drained : ∀ x, s.drained x = s.machine x :=
    fun x => drained_of_empty (cold.inboxEmpty x)
  refine ⟨⟨cold.inboxEmpty _, cold.prompt _, ⟨?_, ?_⟩, ?_, ?_⟩, ?_, ?_⟩
  · intro x page inRange
    rw [drained, cold.invalid x page inRange]
    rfl
  · intro x owner page _inRange owned
    cases owned
  · rw [cold.inboxEmpty]
    rfl
  · intro x
    rw [drained]
    exact cold.counted x
  · rw [cold.prompt]
    rfl
  · intro operation member
    cases member

theorem Progress.step {setup : Setup} {x : Host} {done : List (Operation Host Int)}
    {events : List Event} {outputs : List Output} {s after : System} {event : Event}
    {shown : List Output} (progress : Progress setup x done events outputs s)
    (serial : Serial setup s event) (accepted : step setup s event = some (after, shown)) :
    ∃ z next, Progress setup z next (events ++ [event]) (outputs ++ shown) after := by
  cases Performs.of_step accepted with
  | read z page _ready =>
      obtain ⟨commandable, settled⟩ := serial
      obtain ⟨next, moved⟩ := progress.read settled z commandable
      exact ⟨z, next, moved⟩
  | write z page message _ready =>
      obtain ⟨commandable, settled⟩ := serial
      obtain ⟨next, moved⟩ := progress.write settled z message commandable
      exact ⟨z, next, moved⟩
  | select z page _ready => exact serial.elim
  | enter z message _place => exact serial.elim
  | readAll z count menu =>
      obtain rfl : z = x := progress.refines.executes (by rw [menu]; simp)
      obtain ⟨next, moved⟩ := progress.readAll menu
      exact ⟨z, next, moved⟩
  | writeAll z count message menu =>
      obtain rfl : z = x := progress.refines.executes (by rw [menu]; simp)
      obtain ⟨next, moved⟩ := progress.writeAll menu
      exact ⟨z, next, moved⟩
  | receive z index next waiting _available =>
      obtain rfl : z = x := progress.refines.executes (by
        intro prompt
        rw [prompt] at waiting
        cases waiting)
      exact ⟨z, done, progress.receive waiting ((s.replies z).take setup.pageSize)
        ((s.replies z).drop setup.pageSize)⟩
  | serve z data rest oldest =>
      obtain rfl : z = x.peer := by
        rcases Host.eq_or_eq_peer x z with rfl | same
        · rw [progress.refines.ownInbox] at oldest
          cases oldest
        · exact same
      have unchanged := System.serve_machine_peer s x.peer data setup rest
      rw [Host.peer_peer] at unchanged
      exact ⟨x, done, progress.continue rfl (progress.refines.serve oldest) (by rw [unchanged])⟩

theorem serial_progress {setup : Setup} {start final : System} {events : List Event}
    {outputs : List Output} (cold : Cold setup start)
    (run : Run (step setup) (Serial setup) start events outputs final) :
    ∃ x done, Progress setup x done events outputs final := by
  refine run.history_invariant
    (fun past shownBefore s => ∃ x done, Progress setup x done past shownBefore s)
    ⟨.one, [], cold.progress⟩ ?_
  rintro past shownBefore before event after shown ⟨x, done, progress⟩ serial accepted
  exact progress.step serial accepted

/-- Between commands everything that was commanded has been done. -/
theorem Progress.agrees {setup : Setup} {x : Host} {done : List (Operation Host Int)}
    {events : List Event} {outputs : List Output} {s : System}
    (progress : Progress setup x done events outputs s) (settled : Settled s) :
    Agrees setup (tableAfter (operations setup events)) s.machine := by
  have commanded : operations setup events = done := by
    rw [progress.commanded, (settled x).1]
    exact List.append_nil _
  have drained : s.drained = s.machine := by
    funext z
    exact drained_of_empty (settled z).2
  rw [commanded, ← drained]
  exact progress.refines.agrees

/-- In a serial run with any signals at the start, whenever no command is being executed
the two machines hold every page as textbook MSI does after the same page accesses, and
the replies sent so far are those to the read misses, one for each, in order. -/
theorem serial_refines_msi {setup : Setup} {start final : System} {events : List Event}
    {outputs : List Output} (cold : Cold setup start)
    (run : Run (step setup) (Serial setup) start events outputs final)
    (settled : Settled final) :
    (∀ x page, setup.InRange page → (final.machine x).listMSI page =
        modeEntry ((tableAfter (operations setup events) page).mode x)) ∧
      (∀ page, setup.InRange page →
        ((final.machine .one).listMSI page, (final.machine .two).listMSI page) ∈
          [(MSIList.invalid, MSIList.invalid), (.modified, .invalid), (.invalid, .modified),
            (.shared, .shared)]) ∧
      answered outputs = misses (operations setup events) := by
  obtain ⟨x, done, progress⟩ := serial_progress cold run
  have entries := (progress.agrees settled).entries
  refine ⟨entries, ?_, ?_⟩
  · intro page inRange
    rw [entries .one page inRange, entries .two page inRange]
    cases tableAfter (operations setup events) page with
    | unowned => decide
    | owned owner =>
        cases owner with
        | one => decide
        | two => decide
    | shared => decide
  · have replies := progress.refines.replies
    rw [(settled x.peer).2, promised, List.append_nil] at replies
    rw [replies, progress.commanded, (settled x).1]
    exact congrArg misses (List.append_nil _).symm

def bulkCommands : List Event :=
  [.write .one (-1) [97], .iterate .one, .serve .two, .iterate .one, .iterate .one,
    .serve .two, .read .two (-1), .iterate .two, .serve .one, .receive .two, .iterate .two,
    .serve .one, .receive .two, .iterate .two, .write .one 1 [98], .serve .two]

private theorem bulkCommands_run : (play (Serial twoPages) bulkCommands).isSome = true := by
  decide

theorem serial_refines_msi_bulkCommands :
    (∀ x page, twoPages.InRange page →
        ((reached _ bulkCommands bulkCommands_run).machine x).listMSI page =
          modeEntry ((tableAfter (operations twoPages bulkCommands) page).mode x)) ∧
      (∀ page, twoPages.InRange page →
        (((reached _ bulkCommands bulkCommands_run).machine .one).listMSI page,
            ((reached _ bulkCommands bulkCommands_run).machine .two).listMSI page) ∈
          [(MSIList.invalid, MSIList.invalid), (.modified, .invalid), (.invalid, .modified),
            (.shared, .shared)]) ∧
      answered ((play (Serial twoPages) bulkCommands).get bulkCommands_run).2 =
        misses (operations twoPages bulkCommands) :=
  serial_refines_msi (freshSystem_initial twoPages).toCold
    (play_run _ bulkCommands bulkCommands_run) (by decide)

end LKP.Dsm
