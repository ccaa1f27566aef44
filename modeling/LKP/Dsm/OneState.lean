import LKP.Dsm.RegionBounds

/-
From the start-up loops on: which entries of the tables the threads change, and to what.

Every statement that sets a flag of `list_MSI` stands among those that set the other two,
and names a page below the page count.  A struct that arrives may replace the page
number between the two prompts of a `w`, but only by that of another page below the
count, and the loops stop there.

The table ends at `MAX_SIZE`.  Nothing keeps the page count below, and what would be the
next entry begins with the variable into which the menu reads its command letters.
-/

set_option autoImplicit false

namespace LKP.Dsm

open TransitionRun CBuffer

/-! ### The two machines from their start-up loops on -/

/-- The two machines, with the `i` of `while (i < temp_data.page_count)` on each until that
loop has ended. -/
structure Opening where
  system : System
  initialising : Host → Option Int

inductive Thread where
  | client
  | server
deriving DecidableEq

/-- The thread that has the loop: on machine 1 it calls `menu` later, on machine 2 it goes
on to the receive loop. -/
def Host.opener : Host → Thread
  | .one => .client
  | .two => .server

def Event.thread : Event → Thread
  | .serve _ => .server
  | _ => .client

inductive OpeningEvent where
  | initialise (x : Host)
  | view (x : Host) (page : Int)
  | play (event : Event)
deriving DecidableEq

inductive OpeningOutput where
  | viewed (x : Host) (entries : List (Int × MSIList))
  | played (output : Output)

/-- `scanf("%c", &commands)`.  In the executable that stands beside the source `commands` is the
first byte behind `list_MSI`, that of `list_MSI[MAX_SIZE].M`. -/
def scanCommands (letter : UInt8) (machine : Machine) : Machine :=
  { machine with
    listMSI := Function.update machine.listMSI maxSize
      { machine.listMSI maxSize with M := letter != 0 } }

theorem scanCommands_behind (letter : UInt8) (machine : Machine) :
    (scanCommands letter machine).listMSI maxSize =
      { machine.listMSI maxSize with M := letter != 0 } :=
  Function.update_self maxSize _ machine.listMSI

def Event.letter : Event → Option UInt8
  | .read _ _ => some 114
  | .write _ _ _ => some 119
  | .select _ _ => some 119
  | _ => none

def System.scan (s : System) (event : Event) : System :=
  match event.letter with
  | none => s
  | some letter => s.put event.host (scanCommands letter (s.machine event.host))

/-- `menu`, command `v`: the entries it prints. -/
def menuView (page : Int) (machine : Machine) : Machine × List (Int × MSIList) :=
  let data := { machine.tempData with pageNum := page }
  let index := toInt page
  ({ machine with tempData := data },
    if index = -1 then
      (List.range data.pageCount.toNat).map (fun start : Nat => (start, machine.listMSI start))
    else [])

/-- One round of the loop at `i`; `none` in place of the next `i` when it has ended. -/
def initialiseEntry (i : Int) (machine : Machine) : Machine × Option Int :=
  if i < machine.tempData.pageCount then
    ({ machine with listMSI := Function.update machine.listMSI i .invalid }, some (i + 1))
  else (machine, none)

def Opening.Occupied (s : Opening) (x : Host) (thread : Thread) : Prop :=
  s.initialising x ≠ none ∧ thread = x.opener

instance (s : Opening) (x : Host) (thread : Thread) : Decidable (s.Occupied x thread) :=
  inferInstanceAs (Decidable (_ ∧ _))

def openingStep (setup : Setup) : StepFunction Opening OpeningEvent OpeningOutput
  | s, .initialise x =>
      match s.initialising x with
      | none => none
      | some i =>
          let entered := initialiseEntry i (s.system.machine x)
          some (⟨s.system.put x entered.1, Function.update s.initialising x entered.2⟩, [])
  | s, .view x page =>
      if s.Occupied x .client ∨ (s.system.machine x).menu ≠ .prompt then none
      else
        let scanned := s.system.put x (scanCommands 118 (s.system.machine x))
        let viewed := menuView page (scanned.machine x)
        some (⟨scanned.put x viewed.1, s.initialising⟩, [.viewed x viewed.2])
  | s, .play event =>
      if s.Occupied event.host event.thread then none
      else
        match step setup (s.system.scan event) event with
        | none => none
        | some (after, shown) => some (⟨after, s.initialising⟩, shown.map .played)

def OpeningEvent.number : OpeningEvent → Option Int
  | .initialise _ => none
  | .view _ page => some page
  | .play event => event.number

def OpeningEvent.OffersPage (setup : Setup) (event : OpeningEvent) : Prop :=
  ∀ number, event.number = some number → setup.Offered number

instance (setup : Setup) (event : OpeningEvent) : Decidable (event.OffersPage setup) :=
  inferInstanceAs (Decidable (∀ number ∈ event.number, setup.Offered number))

/-- Both machines in front of their loops, with the same page count.  The tables and the
signals hold anything. -/
structure Opening.Unset (setup : Setup) (s : Opening) : Prop where
  initialising : ∀ x, s.initialising x = some 0
  counted : ∀ x, (s.system.machine x).tempData.pageCount = setup.pageCount
  prompt : ∀ x, (s.system.machine x).menu = .prompt
  inboxEmpty : ∀ x, s.system.inbox x = []

/-! ### What the functions change in the table -/

/-- Entries below the page count may change, to M, S or I; the others stay. -/
def Rewrites (setup : Setup) (before after : Int → MSIList) : Prop :=
  ∀ page, after page = before page ∨ page < setup.pageCount ∧ (after page).OneHot

section Tables

variable {setup : Setup} {table : Int → MSIList}

theorem Rewrites.refl : Rewrites setup table table := fun _page => .inl rfl

theorem Rewrites.trans {middle after : Int → MSIList} (first : Rewrites setup table middle)
    (second : Rewrites setup middle after) : Rewrites setup table after := by
  intro page
  rcases second page with kept | settled
  · rw [kept]
    exact first page
  · exact .inr settled

theorem Rewrites.update {index : Int} {entry : MSIList} (below : index < setup.pageCount)
    (settled : entry = table index ∨ entry.OneHot) :
    Rewrites setup table (Function.update table index entry) := by
  intro page
  by_cases same : page = index
  · subst same
    rw [Function.update_self]
    rcases settled with kept | oneHot
    · exact .inl kept
    · exact .inr ⟨below, oneHot⟩
  · exact .inl (Function.update_of_ne same ..)

theorem serverEntry_settled (entry : MSIList) (recvData : ProcInfo) :
    serverEntry entry recvData = entry ∨ (serverEntry entry recvData).OneHot := by
  unfold serverEntry
  simp only []
  split
  · exact .inr (.inr (.inl rfl))
  · split
    · exact .inr (.inr (.inr rfl))
    · split
      · exact .inr (.inr (.inl rfl))
      · split
        · exact .inr (.inr (.inr rfl))
        · exact .inl rfl

end Tables

theorem toInt_le {page : Int} (lower : -1 ≤ page) : toInt page ≤ page := by
  rw [toInt, Int.bmod_def]
  omega

structure Machine.Placed (setup : Setup) (machine : Machine) : Prop where
  counted : machine.tempData.pageCount = setup.pageCount
  below : machine.menu = .message → machine.tempData.pageNum < setup.pageCount

structure ProcInfo.Below (setup : Setup) (data : ProcInfo) : Prop where
  counted : data.pageCount = setup.pageCount
  below : data.pageNum < setup.pageCount

theorem Machine.Placed.of_elsewhere {setup : Setup} {machine : Machine}
    (counted : machine.tempData.pageCount = setup.pageCount)
    (elsewhere : machine.menu ≠ .message) : machine.Placed setup :=
  ⟨counted, fun here => absurd here elsewhere⟩

structure Behaves (setup : Setup) (machine : Machine) (result : Machine × MenuEffect) :
    Prop where
  keeps : MenuKeeps (Machine.Placed setup) (ProcInfo.Below setup) result
  rewrites : Rewrites setup machine.listMSI result.1.listMSI

section Functions

variable {setup : Setup} {machine : Machine}

theorem menuReadPage_behaves (counted : machine.tempData.pageCount = setup.pageCount)
    (below : machine.tempData.pageNum < setup.pageCount) (index : Int) {held waiting : Menu}
    (heldElsewhere : held ≠ .message) (waitingElsewhere : waiting ≠ .message) :
    Behaves setup machine (menuReadPage setup index held waiting machine) := by
  unfold menuReadPage
  simp only [Function.update_self, if_true]
  split
  · refine ⟨.of_send (.of_elsewhere counted waitingElsewhere) ⟨counted, below⟩, ?_⟩
    exact .update below (.inr (.inr (.inl rfl)))
  · split
    · exact ⟨.of_display (.of_elsewhere counted heldElsewhere), .refl⟩
    · exact ⟨.of_silent (.of_elsewhere counted heldElsewhere), .refl⟩

theorem menuRead_behaves {page : Int} (counted : machine.tempData.pageCount = setup.pageCount)
    (offered : setup.Offered page) : Behaves setup machine (menuRead setup page machine) := by
  unfold menuRead
  simp only []
  split
  · exact ⟨.of_silent (.of_elsewhere counted Menu.noConfusion), .refl⟩
  · obtain ⟨keeps, rewrites⟩ := @menuReadPage_behaves setup
      { machine with
        tempData :=
          { machine.tempData with pageNum := page, accessPage := page * setup.pageSize } }
      counted offered.2 (toInt page) .prompt (.awaitReply (toInt page)) Menu.noConfusion
      Menu.noConfusion
    exact ⟨keeps, rewrites⟩

theorem menuReadAll_behaves (counted : machine.tempData.pageCount = setup.pageCount)
    (count : Int) : Behaves setup machine (menuReadAll setup count machine) := by
  unfold menuReadAll
  split
  · rename_i more
    obtain ⟨keeps, rewrites⟩ := @menuReadPage_behaves setup
      { machine with
        tempData :=
          { machine.tempData with pageNum := count, accessPage := count * setup.pageSize } }
      counted (by rwa [counted] at more) count (.readAll (count + 1)) (.awaitReplyAll count)
      Menu.noConfusion Menu.noConfusion
    exact ⟨keeps, rewrites⟩
  · exact ⟨.of_silent (.of_elsewhere counted Menu.noConfusion), .refl⟩

theorem menuWriteSelect_behaves {page : Int}
    (counted : machine.tempData.pageCount = setup.pageCount) (offered : setup.Offered page) :
    (menuWriteSelect setup page machine).Placed setup ∧
      Rewrites setup machine.listMSI (menuWriteSelect setup page machine).listMSI := by
  obtain ⟨lower, upper⟩ := offered
  unfold menuWriteSelect
  simp only []
  split
  · exact ⟨.of_elsewhere counted Menu.noConfusion, .refl⟩
  · have kept := writeSignals_kept (machine.listMSI (toInt page)) (toInt page)
      { machine.tempData with pageNum := page }
    have within := toInt_le lower
    refine ⟨⟨kept.2.trans counted, fun _here => ?_⟩, ?_⟩
    · change (writeSignals _ _ _).pageNum < _
      rw [kept.1]
      exact upper
    · exact .update (by omega) (.inr (.inl rfl))

theorem menuWriteMessage_behaves (message : List UInt8) (placed : machine.Placed setup) :
    Behaves setup machine (menuWriteMessage message machine) := by
  cases place : machine.menu with
  | message =>
      simp only [menuWriteMessage, place]
      exact ⟨.of_send (.of_elsewhere placed.counted Menu.noConfusion)
        ⟨placed.counted, placed.below place⟩, .refl⟩
  | messageAll =>
      simp only [menuWriteMessage, place]
      exact ⟨.of_silent (.of_elsewhere placed.counted Menu.noConfusion), .refl⟩
  | _ =>
      simp only [menuWriteMessage, place]
      exact ⟨.of_silent placed, .refl⟩

theorem menuWrite_behaves {page : Int} (message : List UInt8)
    (counted : machine.tempData.pageCount = setup.pageCount) (offered : setup.Offered page) :
    Behaves setup machine (menuWrite setup page message machine) := by
  obtain ⟨placed, rewrites⟩ := menuWriteSelect_behaves counted offered
  have entered := menuWriteMessage_behaves message placed
  exact ⟨entered.keeps, rewrites.trans entered.rewrites⟩

theorem menuWriteAll_behaves (counted : machine.tempData.pageCount = setup.pageCount)
    (count : Int) (message : List UInt8) :
    Behaves setup machine (menuWriteAll setup count message machine) := by
  by_cases more : count < machine.tempData.pageCount
  · rw [menuWriteAll_more message more]
    have below : count < setup.pageCount := by rwa [counted] at more
    have kept := (writeRequest_pageCount setup (machine.listMSI count) count
      machine.tempData).trans counted
    refine ⟨.of_send (.of_elsewhere kept Menu.noConfusion) ⟨kept, below⟩, ?_⟩
    exact .update below (.inr (.inl rfl))
  · rw [menuWriteAll_done message more]
    exact ⟨.of_silent (.of_elsewhere counted Menu.noConfusion), .refl⟩

theorem afterServe_placed {recvData : ProcInfo} (data : recvData.Below setup) :
    (machine.afterServe recvData).Placed setup :=
  ⟨data.counted, fun _here => data.below⟩

theorem afterServe_rewrites {recvData : ProcInfo} (data : recvData.Below setup) :
    Rewrites setup machine.listMSI (machine.afterServe recvData).listMSI :=
  .update data.below (serverEntry_settled _ recvData)

end Functions

/-! ### Steps -/

theorem placed_each (setup : Setup) :
    KeepsEach setup (Event.OffersPage setup) (Machine.Placed setup) (ProcInfo.Below setup) where
  read := by
    intro x page machine placed offers
    exact (menuRead_behaves placed.counted (offers page rfl)).keeps
  write := by
    intro x page message machine placed offers
    exact (menuWrite_behaves message placed.counted (offers page rfl)).keeps
  select := by
    intro x page machine placed offers
    exact (menuWriteSelect_behaves placed.counted (offers page rfl)).1
  enter := by
    intro x message machine placed _offers
    exact (menuWriteMessage_behaves message placed).keeps
  readAll := by
    intro count machine placed _place
    exact (menuReadAll_behaves placed.counted count).keeps
  writeAll := by
    intro count message machine placed _place
    exact (menuWriteAll_behaves placed.counted count message).keeps
  receive := by
    intro index next received machine placed waiting
    refine .of_elsewhere placed.counted ?_
    change next ≠ .message
    generalize machine.menu = menu at waiting
    cases menu with
    | awaitReply count =>
        cases waiting
        exact Menu.noConfusion
    | awaitReplyAll count =>
        cases waiting
        exact Menu.noConfusion
    | _ => cases waiting
  serve := by
    intro recvData machine _placed data
    exact afterServe_placed data

section Steps

variable {setup : Setup} {s after : System}

theorem put_rewrites {x : Host} {machine : Machine}
    (rewrites : Rewrites setup (s.machine x).listMSI machine.listMSI) (z : Host) :
    Rewrites setup (s.machine z).listMSI ((s.put x machine).machine z).listMSI := by
  rcases Host.eq_or_eq_peer x z with rfl | rfl
  · rw [System.put_machine_self]
    exact rewrites
  · rw [System.put_machine_peer]
    exact .refl

theorem apply_rewrites {x : Host} {result : Machine × MenuEffect}
    (rewrites : Rewrites setup (s.machine x).listMSI result.1.listMSI) (z : Host) :
    Rewrites setup (s.machine z).listMSI ((s.apply x result).1.machine z).listMSI := by
  rcases Host.eq_or_eq_peer x z with rfl | rfl
  · rw [System.apply_machine_self]
    exact rewrites
  · rw [System.apply_machine_peer]
    exact .refl

/-- Below the page count a step changes entries to one of the three states, elsewhere none. -/
theorem step_rewrites (fits : s.Fits (Machine.Placed setup) (ProcInfo.Below setup))
    {event : Event} (offers : event.OffersPage setup) {shown : List Output}
    (accepted : step setup s event = some (after, shown)) (z : Host) :
    Rewrites setup (s.machine z).listMSI (after.machine z).listMSI := by
  cases Performs.of_step accepted with
  | read x page _ready =>
      exact apply_rewrites (menuRead_behaves (fits.machines x).counted (offers page rfl)).rewrites z
  | write x page message _ready =>
      have written := menuWrite_behaves message (fits.machines x).counted (offers page rfl)
      exact apply_rewrites written.rewrites z
  | select x page _ready =>
      have selected := menuWriteSelect_behaves (fits.machines x).counted (offers page rfl)
      exact put_rewrites selected.2 z
  | enter x message _place =>
      exact apply_rewrites (menuWriteMessage_behaves message (fits.machines x)).rewrites z
  | readAll x count _place =>
      exact apply_rewrites (menuReadAll_behaves (fits.machines x).counted count).rewrites z
  | writeAll x count message _place =>
      exact apply_rewrites (menuWriteAll_behaves (fits.machines x).counted count message).rewrites z
  | receive x index next _waiting _available =>
      exact @apply_rewrites setup (s.unread x ((s.replies x).drop setup.pageSize)) x _ .refl z
  | serve x recvData rest oldest =>
      have data := fits.structs x recvData (by rw [oldest]; exact List.mem_cons_self)
      rcases Host.eq_or_eq_peer x z with rfl | rfl
      · rw [System.serve_machine_self]
        exact afterServe_rewrites data
      · rw [System.serve_machine_peer]
        exact .refl

end Steps

/-! ### Runs -/

/-- In the table the pages that the loop has passed are in one state, and the entries from the
page count on are as they were. -/
structure Opening.Sound (setup : Setup) (s start : Opening) : Prop where
  fits : s.system.Fits (Machine.Placed setup) (ProcInfo.Below setup)
  oneHot : ∀ x page, 0 ≤ page → page < maxSize →
    page < (s.initialising x).getD setup.pageCount → ((s.system.machine x).listMSI page).OneHot
  kept : ∀ x page, setup.pageCount ≤ page → page < maxSize →
    (s.system.machine x).listMSI page = (start.system.machine x).listMSI page

section Runs

variable {setup : Setup} {start s after : Opening}

theorem Opening.Unset.sound (unset : start.Unset setup) : start.Sound setup start where
  fits := by
    constructor
    · intro x
      refine .of_elsewhere (unset.counted x) ?_
      rw [unset.prompt x]
      exact Menu.noConfusion
    · intro x data member
      rw [unset.inboxEmpty x] at member
      cases member
  oneHot := by
    intro x page lower _within upper
    rw [unset.initialising x] at upper
    exact absurd lower (Int.not_le.mpr upper)
  kept := fun _x _page _beyond _within => rfl

/-- Tables that are rewritten below the page count stay sound. -/
theorem Opening.Sound.rewrite (sound : s.Sound setup start) {system : System}
    (fits : system.Fits (Machine.Placed setup) (ProcInfo.Below setup))
    (rewrites : ∀ x, Rewrites setup (s.system.machine x).listMSI (system.machine x).listMSI) :
    (Opening.mk system s.initialising).Sound setup start where
  fits := fits
  oneHot := by
    intro x page lower within upper
    rcases rewrites x page with same | settled
    · rw [same]
      exact sound.oneHot x page lower within upper
    · exact settled.2
  kept := by
    intro x page beyond within
    rcases rewrites x page with same | settled
    · rw [same]
      exact sound.kept x page beyond within
    · exact absurd settled.1 (Int.not_lt.mpr beyond)

/-- A command letter is stored behind the table. -/
theorem Opening.Sound.scanned (sound : s.Sound setup start) (x : Host) (letter : UInt8) :
    (Opening.mk (s.system.put x (scanCommands letter (s.system.machine x)))
      s.initialising).Sound setup start := by
  have table : ∀ z page, page < maxSize →
      ((s.system.put x (scanCommands letter (s.system.machine x))).machine z).listMSI page =
        (s.system.machine z).listMSI page := by
    intro z page within
    rcases Host.eq_or_eq_peer x z with rfl | rfl
    · rw [System.put_machine_self]
      exact Function.update_of_ne (Int.ne_of_lt within) ..
    · rw [System.put_machine_peer]
  have own := sound.fits.machines x
  refine ⟨sound.fits.put x ⟨own.counted, own.below⟩, ?_, ?_⟩
  · intro z page lower within upper
    change (((s.system.put x _).machine z).listMSI page).OneHot
    rw [table z page within]
    exact sound.oneHot z page lower within upper
  · intro z page beyond within
    change ((s.system.put x _).machine z).listMSI page = _
    rw [table z page within]
    exact sound.kept z page beyond within

theorem Opening.Sound.scan (sound : s.Sound setup start) (event : Event) :
    (Opening.mk (s.system.scan event) s.initialising).Sound setup start := by
  unfold System.scan
  split
  · exact sound
  · exact sound.scanned _ _

/-- A round of the loop leaves the menu and `temp_data` alone, and what it has passed then
was passed before or is in I. -/
theorem initialiseEntry_passes {machine : Machine} (i : Int)
    (counted : machine.tempData.pageCount = setup.pageCount) :
    Rewrites setup machine.listMSI (initialiseEntry i machine).1.listMSI ∧
      (initialiseEntry i machine).1.tempData = machine.tempData ∧
      (initialiseEntry i machine).1.menu = machine.menu ∧
      ∀ page, page < (initialiseEntry i machine).2.getD setup.pageCount →
        page < i ∨ ((initialiseEntry i machine).1.listMSI page).OneHot := by
  unfold initialiseEntry
  split
  · rename_i more
    rw [counted] at more
    refine ⟨.update more (.inr (.inr (.inr rfl))), rfl, rfl, ?_⟩
    intro page upper
    change page < i + 1 at upper
    by_cases here : page = i
    · subst here
      right
      change (Function.update machine.listMSI page .invalid page).OneHot
      rw [Function.update_self]
      exact .inr (.inr rfl)
    · exact .inl (by omega)
  · rename_i done
    rw [counted] at done
    refine ⟨.refl, rfl, rfl, ?_⟩
    intro page upper
    exact .inl (Int.lt_of_lt_of_le upper (Int.not_lt.mp done))

theorem Opening.Sound.initialise (sound : s.Sound setup start) {x : Host} {i : Int}
    (here : s.initialising x = some i) :
    (Opening.mk (s.system.put x (initialiseEntry i (s.system.machine x)).1)
      (Function.update s.initialising x (initialiseEntry i (s.system.machine x)).2)).Sound
        setup start := by
  have own := sound.fits.machines x
  obtain ⟨rewrites, data, menu, passed⟩ := initialiseEntry_passes i own.counted
  have placed : (initialiseEntry i (s.system.machine x)).1.Placed setup := by
    refine ⟨?_, fun atMessage => ?_⟩
    · rw [data]
      exact own.counted
    · rw [data]
      exact own.below (menu ▸ atMessage)
  have before := sound.rewrite (sound.fits.put x placed) (put_rewrites rewrites)
  refine ⟨before.fits, ?_, before.kept⟩
  intro z page lower within upper
  rcases Host.eq_or_eq_peer x z with rfl | rfl
  · simp only [Function.update_self] at upper
    rcases passed page upper with earlier | settled
    · exact before.oneHot z page lower within (by rw [here]; exact earlier)
    · change (((s.system.put z _).machine z).listMSI page).OneHot
      rw [System.put_machine_self]
      exact settled
  · simp only [Function.update_of_ne (Host.peer_ne x)] at upper
    exact before.oneHot _ page lower within upper

theorem Opening.Sound.step (sound : s.Sound setup start) {event : OpeningEvent}
    (offers : event.OffersPage setup) {shown : List OpeningOutput}
    (accepted : openingStep setup s event = some (after, shown)) : after.Sound setup start := by
  cases event with
  | initialise x =>
      simp only [openingStep] at accepted
      split at accepted
      · cases accepted
      · rename_i i here
        cases accepted
        exact sound.initialise here
  | view x page =>
      simp only [openingStep] at accepted
      split at accepted
      · cases accepted
      · rename_i free
        cases accepted
        have prompt : (s.system.machine x).menu = .prompt := by
          by_contra elsewhere
          exact free (.inr elsewhere)
        have scanned := sound.scanned x 118
        have placed : (menuView page (scanCommands 118 (s.system.machine x))).1.Placed setup := by
          refine .of_elsewhere (sound.fits.machines x).counted ?_
          change (s.system.machine x).menu ≠ .message
          rw [prompt]
          exact Menu.noConfusion
        rw [System.put_machine_self]
        exact scanned.rewrite (scanned.fits.put x placed)
          (put_rewrites (by rw [System.put_machine_self]; exact .refl))
  | play event =>
      simp only [openingStep] at accepted
      split at accepted
      · cases accepted
      · split at accepted
        · cases accepted
        · rename_i system outputs moved
          cases accepted
          have scanned := sound.scan event
          exact scanned.rewrite (scanned.fits.step (placed_each setup) offers moved)
            (step_rewrites scanned.fits offers moved)

/-- While there are no more pages than `MAX_SIZE`, in every state that the two machines reach,
whatever the tables and the signals held at first: where the loop has ended, exactly one flag
is set of every page; and no entry of the table from the page count on is changed. -/
theorem one_state_each (few : setup.pageCount ≤ maxSize) (unset : start.Unset setup)
    {events : List OpeningEvent} {outputs : List OpeningOutput}
    (run : Run (openingStep setup) (fun _ event => event.OffersPage setup) start events outputs s)
    (x : Host) :
    (s.initialising x = none → ∀ page, 0 ≤ page → page < setup.pageCount →
      ((s.system.machine x).listMSI page).OneHot) ∧
    ∀ page, setup.pageCount ≤ page → page < maxSize →
      (s.system.machine x).listMSI page = (start.system.machine x).listMSI page := by
  have sound : s.Sound setup start :=
    run.invariant (fun state => state.Sound setup start) unset.sound
      (fun before event after shown sound offers accepted => sound.step offers accepted)
  refine ⟨?_, sound.kept x⟩
  intro ended page lower upper
  apply sound.oneHot x page lower (Int.lt_of_lt_of_le upper few)
  rw [ended]
  exact upper

/-- The loop of a machine, with nothing in between, ends with all pages in I. -/
theorem initialise_rounds (x : Host) {left : Nat} {i : Int}
    (here : s.initialising x = some i)
    (count : (s.system.machine x).tempData.pageCount - i = left)
    (passed : ∀ page, 0 ≤ page → page < i → (s.system.machine x).listMSI page = .invalid) :
    ∃ ended, Run (openingStep setup) (fun _ event => event.OffersPage setup) s
        (List.replicate (left + 1) (.initialise x)) [] ended ∧
      ended.initialising x = none ∧
      (ended.system.machine x).menu = (s.system.machine x).menu ∧
      ∀ page, 0 ≤ page → page < (s.system.machine x).tempData.pageCount →
        (ended.system.machine x).listMSI page = .invalid := by
  have offers : (OpeningEvent.initialise x).OffersPage setup :=
    fun number typed => absurd typed.symm (Option.some_ne_none number)
  have round : openingStep setup s (.initialise x) =
      some (⟨s.system.put x (initialiseEntry i (s.system.machine x)).1,
        Function.update s.initialising x (initialiseEntry i (s.system.machine x)).2⟩, []) := by
    simp only [openingStep, here]
  induction left generalizing s i with
  | zero =>
      have done : ¬ i < (s.system.machine x).tempData.pageCount := by omega
      rw [initialiseEntry, if_neg done] at round
      refine ⟨_, Run.one offers round, Function.update_self .., ?_, ?_⟩
      · rw [System.put_machine_self]
      · intro page lower upper
        rw [System.put_machine_self]
        exact passed page lower (by omega)
  | succ left ih =>
      have more : i < (s.system.machine x).tempData.pageCount := by omega
      rw [initialiseEntry, if_pos more] at round
      obtain ⟨ended, run, none, menu, entries⟩ := @ih
        ⟨s.system.put x { s.system.machine x with
            listMSI := Function.update (s.system.machine x).listMSI i .invalid },
          Function.update s.initialising x (some (i + 1))⟩ (i + 1)
        (Function.update_self ..)
        (by
          rw [System.put_machine_self]
          change (s.system.machine x).tempData.pageCount - (i + 1) = left
          omega)
        (by
          intro page lower upper
          rw [System.put_machine_self]
          change Function.update (s.system.machine x).listMSI i .invalid page = .invalid
          by_cases last : page = i
          · rw [last, Function.update_self]
          · rw [Function.update_of_ne last]
            exact passed page lower (by omega))
        (by simp only [openingStep, Function.update_self])
      rw [System.put_machine_self] at menu entries
      have first : Run (openingStep setup) (fun _ event => event.OffersPage setup) s
          [.initialise x] [] _ := Run.one offers round
      exact ⟨ended, first.append run, none, menu, entries⟩

end Runs

/-! ### A message prompt and a loop, with a start-up in between -/

def zeroOpening (setup : Setup) : Opening where
  system :=
    { machine := fun _ => { freshMachine setup with listMSI := fun _ => ⟨false, false, false⟩ }
      inbox := fun _ => []
      replies := fun _ => [] }
  initialising := fun _ => some 0

theorem zeroOpening_unset (setup : Setup) : (zeroOpening setup).Unset setup where
  initialising := fun _ => rfl
  counted := fun _ => rfl
  prompt := fun _ => rfl
  inboxEmpty := fun _ => rfl

def openingEvents : List OpeningEvent :=
  [.initialise .one, .initialise .one, .initialise .one, .play (.select .one 0),
    .initialise .two, .view .two 1, .initialise .two, .initialise .two,
    .play (.enter .one [97]), .play (.serve .two), .play (.read .two 0), .play (.serve .one),
    .play (.receive .two), .play (.write .two (-1) [98]), .play (.iterate .two),
    .play (.iterate .two), .play (.serve .one)]

def opened : Option (Opening × List OpeningOutput) :=
  execute (openingStep twoPages) (fun _ event => decide (event.OffersPage twoPages))
    (zeroOpening twoPages) openingEvents

private theorem opened_run : opened.isSome = true := by decide

theorem one_state_each_afterBoth :
    (((opened.get opened_run).1.system.machine .two).listMSI 0).OneHot ∧
      ((opened.get opened_run).1.system.machine .two).listMSI 2 = ⟨false, false, false⟩ := by
  have each := one_state_each (by decide) (zeroOpening_unset twoPages)
    ((Run.of_executes _ opened_run).weaken (fun _ _ checked => of_decide_eq_true checked)) .two
  exact ⟨each.1 (by decide) 0 (by decide) (by decide), each.2 2 (by decide) (by decide)⟩

/-! ### One page too many -/

def onePageMore : Setup := { twoPages with pageCount := maxSize + 1 }

/-- Machine 1 goes through its loop, and then the letter `v` is typed there. -/
def letterEvents : List OpeningEvent :=
  List.replicate 4098 (.initialise .one) ++ [.view .one 0]

/-- The last page is in I, and `commands` is where its M would be. -/
theorem one_state_each_fails :
    ∃ outputs s, Run (openingStep onePageMore) (fun _ event => event.OffersPage onePageMore)
        (zeroOpening onePageMore) letterEvents outputs s ∧
      s.initialising .one = none ∧ maxSize < onePageMore.pageCount ∧
      (s.system.machine .one).listMSI maxSize = ⟨true, false, true⟩ ∧
      ¬ ((s.system.machine .one).listMSI maxSize).OneHot := by
  obtain ⟨ended, run, none, menu, entries⟩ := @initialise_rounds onePageMore
    (zeroOpening onePageMore) .one 4097 0 rfl (by decide)
    (fun page lower upper => absurd lower (Int.not_le.mpr upper))
  have last : (ended.system.machine .one).listMSI maxSize = .invalid :=
    entries maxSize (by decide) (by decide)
  have prompt : (ended.system.machine .one).menu = .prompt := menu
  have free : ¬ (ended.Occupied .one .client ∨ (ended.system.machine .one).menu ≠ .prompt) :=
    not_or.mpr ⟨fun occupied => occupied.1 none, not_not.mpr prompt⟩
  have letter : ∃ shown after, openingStep onePageMore ended (.view .one 0) = some (after, shown) ∧
      after.initialising = ended.initialising ∧
      (after.system.machine .one).listMSI maxSize = ⟨true, false, true⟩ := by
    refine ⟨_, _, if_neg free, rfl, ?_⟩
    rw [System.put_machine_self, System.put_machine_self]
    have stored := scanCommands_behind 118 (ended.system.machine .one)
    rw [last] at stored
    exact stored
  obtain ⟨shown, after, stepped, same, entry⟩ := letter
  refine ⟨_, after, run.extend ?_ stepped, ?_, by decide, entry, ?_⟩
  · intro number typed
    cases typed
    exact ⟨by decide, by decide⟩
  · rw [same]
    exact none
  · rw [entry]
    rintro (modified | shared | invalid)
    · cases modified
    · cases shared
    · cases invalid

end LKP.Dsm
