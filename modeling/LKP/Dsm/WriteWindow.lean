import LKP.Dsm.Network

/-
Where a single write goes when structs arrive while its message is typed.

A `w` on one page sets the signals and `access_page` in `temp_data` before it asks
for the message, and uses `temp_data` again when the message is there.  Every
struct the receive loop takes in between replaces `temp_data` whole, so that only
the last one counts.  The loop over all pages asks for the message first.
-/

set_option autoImplicit false

namespace LKP.Dsm

open TransitionRun CBuffer

def Reachable (setup : Setup) (s : System) : Prop :=
  ∃ start events outputs, Initial setup start ∧
    Run (step setup) (fun _ _ => True) start events outputs s

def ProcInfo.SameSignals (page : Int) (left right : ProcInfo) : Prop :=
  left.busRdx page = right.busRdx page ∧ left.busUpgr page = right.busUpgr page ∧
    left.invalidateSignal page = right.invalidateSignal page ∧
    left.readSignal page = right.readSignal page

instance (page : Int) (left right : ProcInfo) : Decidable (left.SameSignals page right) :=
  inferInstanceAs (Decidable (_ ∧ _ ∧ _ ∧ _))

def Event.Typing (x : Host) : Event → Prop
  | .enter z _ => z ≠ x
  | _ => True

instance (x : Host) (event : Event) : Decidable (event.Typing x) :=
  match event with
  | .enter _ _ => inferInstanceAs (Decidable (_ ≠ _))
  | .read _ _ | .write _ _ _ | .select _ _ | .iterate _ | .receive _ | .serve _ =>
      inferInstanceAs (Decidable True)

def takenBy (x : Host) (s : System) : Event → List ProcInfo
  | .serve z => if z = x then (s.inbox x).take 1 else []
  | _ => []

def receivedBy (setup : Setup) (x : Host) : System → List Event → List ProcInfo
  | _, [] => []
  | s, event :: rest =>
      match step setup s event with
      | none => []
      | some (next, _) => takenBy x s event ++ receivedBy setup x next rest

/-- The message goes to the page, in the region and in the struct, with these signals. -/
def WritesTo (setup : Setup) (x : Host) (page : Int) (signals : ProcInfo)
    (message : List UInt8) (s : System) : Prop :=
  ∃ after data, step setup s (.enter x message) = some (after, [.sent x data]) ∧
    (after.machine x).addr =
      memcpy (s.machine x).addr (page * setup.pageSize) (strBytes message) ∧
    data.pageNum = page ∧ data.SameSignals page signals

/-! ### The page number and the offset of a struct agree -/

def ProcInfo.Addressed (setup : Setup) (data : ProcInfo) : Prop :=
  data.accessPage = data.pageNum * setup.pageSize

/-- At a message prompt `temp_data` is about one page, whatever was received. -/
def Machine.Poised (setup : Setup) (machine : Machine) : Prop :=
  machine.menu = .message → machine.tempData.Addressed setup

theorem Machine.poised_of_menu {setup : Setup} {machine : Machine}
    (elsewhere : machine.menu ≠ .message) : machine.Poised setup :=
  fun place => absurd place elsewhere

private theorem menuReadPage_addressed {setup : Setup} {index : Int} {held waiting : Menu}
    {machine : Machine} (addressed : machine.tempData.Addressed setup)
    (heldElsewhere : held ≠ .message) (waitingElsewhere : waiting ≠ .message) :
    MenuKeeps (Machine.Poised setup) (ProcInfo.Addressed setup)
      (menuReadPage setup index held waiting machine) := by
  unfold menuReadPage
  simp only []
  split
  · exact .of_send (Machine.poised_of_menu waitingElsewhere) addressed
  · split
    · exact .of_display (Machine.poised_of_menu heldElsewhere)
    · exact .of_silent (Machine.poised_of_menu heldElsewhere)

private theorem menuWriteSelect_poised (setup : Setup) (page : Int) (machine : Machine) :
    (menuWriteSelect setup page machine).Poised setup := by
  unfold menuWriteSelect
  simp only []
  split
  · exact Machine.poised_of_menu Menu.noConfusion
  · intro _place
    rfl

private theorem menuWriteMessage_poised {setup : Setup} {machine : Machine}
    (message : List UInt8) (poised : machine.Poised setup) :
    MenuKeeps (Machine.Poised setup) (ProcInfo.Addressed setup)
      (menuWriteMessage message machine) := by
  unfold menuWriteMessage
  split
  · rename_i place
    exact .of_send (Machine.poised_of_menu Menu.noConfusion) (poised place)
  · exact .of_silent (Machine.poised_of_menu Menu.noConfusion)
  · exact .of_silent poised

theorem addressed_each (setup : Setup) :
    KeepsEach setup (fun _ => True) (Machine.Poised setup) (ProcInfo.Addressed setup) where
  read := by
    intro x page machine _poised _admitted
    unfold menuRead
    simp only []
    split
    · exact .of_silent (Machine.poised_of_menu Menu.noConfusion)
    · exact menuReadPage_addressed rfl Menu.noConfusion Menu.noConfusion
  write := by
    intro x page message machine _poised _admitted
    exact menuWriteMessage_poised message (menuWriteSelect_poised setup page machine)
  select := by
    intro x page machine _poised _admitted
    exact menuWriteSelect_poised setup page machine
  enter := by
    intro x message machine poised _admitted
    exact menuWriteMessage_poised message poised
  readAll := by
    intro count machine _poised _place
    unfold menuReadAll
    split
    · exact menuReadPage_addressed rfl Menu.noConfusion Menu.noConfusion
    · exact .of_silent (Machine.poised_of_menu Menu.noConfusion)
  writeAll := by
    intro count message machine _poised _place
    unfold menuWriteAll
    split
    · exact .of_send (Machine.poised_of_menu Menu.noConfusion) rfl
    · exact .of_silent (Machine.poised_of_menu Menu.noConfusion)
  receive := by
    intro index next received machine _poised waiting place
    change next = .message at place
    subst place
    generalize machine.menu = menu at waiting
    cases menu <;> cases waiting
  serve := by
    intro recvData machine _poised addressed _place
    exact addressed

theorem Reachable.addressed {setup : Setup} {s : System} (reachable : Reachable setup s) :
    s.Fits (Machine.Poised setup) (ProcInfo.Addressed setup) := by
  obtain ⟨start, events, outputs, initial, run⟩ := reachable
  refine run.invariant _ ⟨?_, ?_⟩ ?_
  · intro x place
    rw [initial.prompt x] at place
    cases place
  · intro x data member
    rw [initial.inboxEmpty x] at member
    cases member
  · intro before event after shown fits admitted accepted
    exact fits.step (addressed_each setup) admitted accepted

/-! ### The time between the two prompts -/

section Window

variable {setup : Setup} {x : Host}

theorem step_typing {s after : System} {event : Event} {shown : List Output}
    (place : (s.machine x).menu = .message) (typing : event.Typing x)
    (accepted : step setup s event = some (after, shown)) :
    (takenBy x s event = [] ∧ after.machine x = s.machine x) ∨
      ∃ recvData, takenBy x s event = [recvData] ∧
        after.machine x = (s.machine x).afterServe recvData := by
  rcases Host.eq_or_eq_peer event.host x with own | peer
  · subst own
    have busy : (s.machine event.host).menu ≠ .prompt := by
      rw [place]
      exact Menu.noConfusion
    cases Performs.of_step accepted with
    | read z page ready => exact absurd ready busy
    | write z page message ready => exact absurd ready busy
    | select z page ready => exact absurd ready busy
    | enter z message _place => exact absurd rfl typing
    | readAll z count loop =>
        change (s.machine z).menu = .message at place
        rw [place] at loop
        cases loop
    | writeAll z count message loop =>
        change (s.machine z).menu = .message at place
        rw [place] at loop
        cases loop
    | receive z index next waiting _available =>
        change (s.machine z).menu = .message at place
        rw [place] at waiting
        cases waiting
    | serve z recvData rest oldest =>
        refine .inr ⟨recvData, ?_, System.serve_machine_self ..⟩
        simp only [takenBy, Event.host, oldest, if_true, List.take_succ_cons, List.take_zero]
  · subst peer
    refine .inl ⟨?_, (Happens.of_step accepted).machine_peer⟩
    cases event with
    | serve z => exact if_neg (Host.ne_peer z)
    | _ => rfl

/-- The window as a whole: the region stays, and `temp_data` is the last struct taken. -/
theorem window_frame {s typed : System} {window : List Event} {outputs : List Output}
    (place : (s.machine x).menu = .message)
    (during : Run (step setup) (fun _ event => event.Typing x) s window outputs typed) :
    (typed.machine x).menu = .message ∧ (typed.machine x).addr = (s.machine x).addr ∧
      (typed.machine x).tempData =
        (receivedBy setup x s window).getLast?.getD (s.machine x).tempData := by
  induction window generalizing s outputs with
  | nil =>
      obtain ⟨_silent, rfl⟩ := during.nil_inv
      exact ⟨place, rfl, rfl⟩
  | cons event rest ih =>
      obtain ⟨next, shown, remaining, typing, accepted, later, _outputs⟩ := during.uncons
      simp only [receivedBy, accepted]
      rcases step_typing place typing accepted with
        ⟨none, same⟩ | ⟨recvData, taken, same⟩
      · have after := ih (by rw [same]; exact place) later
        rw [same] at after
        rw [none, List.nil_append]
        exact after
      · have after := ih (by rw [same]; exact place) later
        rw [same, afterServe_addr, afterServe_tempData] at after
        rw [taken, List.singleton_append, List.getLast?_cons, Option.getD_some]
        exact after

end Window

theorem Reachable.extend {setup : Setup} {s after : System} {allowed : System → Event → Prop}
    {events : List Event} {outputs : List Output} (reachable : Reachable setup s)
    (run : Run (step setup) allowed s events outputs after) : Reachable setup after := by
  obtain ⟨start, earlier, shown, initial, prior⟩ := reachable
  have free := run.weaken (fun _ _ _ => trivial)
  exact ⟨start, _, _, initial, prior.append free⟩

theorem writeSignals_kept (entry : MSIList) (index : Int) (data : ProcInfo) :
    (writeSignals entry index data).pageNum = data.pageNum ∧
      (writeSignals entry index data).pageCount = data.pageCount := by
  unfold writeSignals
  split
  · exact ⟨rfl, rfl⟩
  · split <;> exact ⟨rfl, rfl⟩

theorem menuWriteSelect_inRange {setup : Setup} {page : Int} (inRange : setup.InRange page)
    (machine : Machine) :
    (menuWriteSelect setup page machine).menu = .message ∧
      (menuWriteSelect setup page machine).tempData.pageNum = page := by
  have single := Setup.inRange_ne_all inRange
  simp only [menuWriteSelect, Setup.toInt_inRange inRange, if_neg single,
    (writeSignals_kept _ _ _).1, and_self]

theorem step_enter {setup : Setup} {s : System} {x : Host}
    (place : (s.machine x).menu = .message) (message : List UInt8) :
    ∃ after, step setup s (.enter x message) =
        some (after, [.sent x (s.machine x).tempData]) ∧
      (after.machine x).addr =
        memcpy (s.machine x).addr (s.machine x).tempData.accessPage (strBytes message) := by
  simp only [step, menuWriteMessage, place, System.apply, true_or, if_true]
  refine ⟨_, rfl, ?_⟩
  rw [System.post_machine, System.put_machine_self]

/-- At the message prompt the write goes where `temp_data` says by then. -/
theorem writesTo_iff {setup : Setup} {s : System} {x : Host} {page : Int}
    {signals : ProcInfo} {message : List UInt8} (place : (s.machine x).menu = .message)
    (addressed : (s.machine x).tempData.Addressed setup) :
    WritesTo setup x page signals message s ↔
      (s.machine x).tempData.pageNum = page ∧
        (s.machine x).tempData.SameSignals page signals := by
  obtain ⟨reached, accepted, copied⟩ := @step_enter setup s x place message
  constructor
  · intro writes
    obtain ⟨after, data, entered, _region, named, same⟩ := writes
    rw [accepted] at entered
    cases entered
    exact ⟨named, same⟩
  · intro kept
    obtain ⟨named, same⟩ := kept
    rw [addressed, named] at copied
    exact ⟨reached, _, accepted, copied, named, same⟩

/-- Only the last struct taken between the prompts matters, and it has to be about the
same page, with the same signals for it. -/
theorem writeWindow_iff {setup : Setup} {s selected typed : System} {x : Host} {page : Int}
    {shown outputs : List Output} {window : List Event} (reachable : Reachable setup s)
    (inRange : setup.InRange page)
    (chosen : step setup s (.select x page) = some (selected, shown))
    (during : Run (step setup) (fun _ event => event.Typing x) selected window outputs typed)
    (message : List UInt8) :
    WritesTo setup x page (selected.machine x).tempData message typed ↔
      ∀ last ∈ (receivedBy setup x selected window).getLast?,
        last.pageNum = page ∧ last.SameSignals page (selected.machine x).tempData := by
  have machine : selected.machine x = menuWriteSelect setup page (s.machine x) := by
    simp only [step] at chosen
    split at chosen
    · have moved : s.put x (menuWriteSelect setup page (s.machine x)) = selected :=
        congrArg Prod.fst (Option.some.inj chosen)
      rw [← moved, System.put_machine_self]
    · cases chosen
  obtain ⟨prompt, named⟩ := menuWriteSelect_inRange inRange (s.machine x)
  rw [← machine] at prompt named
  have first : Reachable setup selected :=
    reachable.extend (@Run.one _ _ _ _ (fun _ _ => True) _ _ _ _ trivial chosen)
  obtain ⟨place, _region, current⟩ := window_frame prompt during
  have addressed := (first.extend during).addressed.machines x place
  rw [writesTo_iff place addressed, current]
  cases receivedBy setup x selected window |>.getLast? with
  | none => simp [named, ProcInfo.SameSignals]
  | some last => simp

/-! ### A struct about another page, and one about the same -/

def chosenPage : System :=
  (freshSystem twoPages).put .one (menuWriteSelect twoPages 0 (freshMachine twoPages))

private theorem chosenPage_step :
    step twoPages (freshSystem twoPages) (.select .one 0) = some (chosenPage, []) := rfl

private theorem fresh_reachable : Reachable twoPages (freshSystem twoPages) :=
  ⟨freshSystem twoPages, [], [], freshSystem_initial twoPages, .stop⟩

def peerWrites (page : Int) : List Event := [.write .two page [98], .serve .one]

private def afterPeerWrites (page : Int) : Option (System × List Output) :=
  execute (step twoPages) (fun _ event => decide (event.Typing .one)) chosenPage (peerWrites page)

private theorem peerWrites_run (page : Int) (runs : (afterPeerWrites page).isSome = true) :
    Run (step twoPages) (fun _ event => event.Typing .one) chosenPage (peerWrites page)
      ((afterPeerWrites page).get runs).2 ((afterPeerWrites page).get runs).1 :=
  (Run.of_executes _ runs).weaken (fun _ _ checked => of_decide_eq_true checked)

theorem writeWindow_iff_same :
    WritesTo twoPages .one 0 (chosenPage.machine .one).tempData [97]
      ((afterPeerWrites 0).get (by decide)).1 :=
  (writeWindow_iff fresh_reachable (by decide) chosenPage_step
    (peerWrites_run 0 (by decide)) [97]).mpr (by decide)

theorem writeWindow_fails :
    ¬ ∀ (setup : Setup) (s selected typed : System) (x : Host) (page : Int)
        (shown outputs : List Output) (window : List Event), Reachable setup s →
      setup.InRange page → step setup s (.select x page) = some (selected, shown) →
      Run (step setup) (fun _ event => event.Typing x) selected window outputs typed →
      ∀ message, WritesTo setup x page (selected.machine x).tempData message typed := by
  intro general
  have writes := general twoPages _ _ _ .one 0 _ _ _ fresh_reachable (by decide) chosenPage_step
    (peerWrites_run 1 (by decide)) [97]
  obtain ⟨after, data, entered, _region, named, _same⟩ := writes
  have place : (((afterPeerWrites 1).get (by decide)).1.machine .one).menu = .message := by
    decide
  obtain ⟨reached, accepted, _copied⟩ := @step_enter twoPages _ .one place [97]
  rw [accepted] at entered
  cases entered
  exact absurd named (by decide)

end LKP.Dsm
