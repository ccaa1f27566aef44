import LKP.Dsm.Accesses
import LKP.Dsm.ReplyBuffer

/-
When the commands stay inside the tables and inside the chosen page.

Start-up, the menu and the receive loop use what is typed as it comes.  A step is
proper if the number typed is one the prompt offers, the message copied is no longer
than a page and goes to the page that was chosen, and a page that is flushed holds a
NUL; then, and as long as no number repeats what is in `temp_data` only then, it uses
nothing outside.
-/

set_option autoImplicit false

namespace LKP.Dsm

open TransitionRun CBuffer

/-! ### Pages and offsets in every state -/

def Setup.Offered (setup : Setup) (number : Int) : Prop :=
  -1 ≤ number ∧ number < setup.pageCount

instance (setup : Setup) (number : Int) : Decidable (setup.Offered number) :=
  inferInstanceAs (Decidable (_ ∧ _))

def Event.number : Event → Option Int
  | .read _ page | .write _ page _ | .select _ page => some page
  | _ => none

def Event.OffersPage (setup : Setup) (event : Event) : Prop :=
  ∀ number, event.number = some number → setup.Offered number

theorem Setup.Offered.cases {setup : Setup} {number : Int} (offered : setup.Offered number)
    (fits : setup.pageCount ≤ maxSize) : number = -1 ∨ setup.InRange number := by
  obtain ⟨lower, upper⟩ := offered
  by_cases all : number = -1
  · exact .inl all
  · exact .inr ⟨by omega, upper, by omega⟩

structure ProcInfo.Counted (setup : Setup) (data : ProcInfo) : Prop where
  names : data.Names setup
  counted : data.pageCount = setup.pageCount

def Menu.Bounded (setup : Setup) (data : ProcInfo) : Menu → Prop
  | .prompt | .messageAll => True
  | .message => data.Names setup
  | .awaitReply index | .awaitReplyAll index => setup.InRange index
  | .readAll count | .writeAll count _ => 0 ≤ count

/-- The menu stands at a page of the region, and the loops stop at the page count. -/
structure Machine.Bounded (setup : Setup) (machine : Machine) : Prop where
  place : machine.menu.Bounded setup machine.tempData
  counted : machine.tempData.pageCount = setup.pageCount

private theorem pageRead_bounded {setup : Setup} {page : Int} (inRange : setup.InRange page)
    {held waiting : Menu} (machine : Machine)
    (counted : machine.tempData.pageCount = setup.pageCount)
    (heldBounded : ∀ data, held.Bounded setup data)
    (waitingBounded : ∀ data, waiting.Bounded setup data) :
    MenuKeeps (Machine.Bounded setup) (ProcInfo.Counted setup)
      (machine.pageRead setup page held waiting) := by
  unfold Machine.pageRead
  split
  · exact .of_send ⟨waitingBounded _, counted⟩ ⟨⟨inRange, rfl⟩, counted⟩
  · split
    · exact .of_display ⟨heldBounded _, counted⟩
    · exact .of_silent ⟨heldBounded _, counted⟩

private theorem pageWrite_bounded {setup : Setup} {page : Int} (inRange : setup.InRange page)
    {next : Menu} (message : List UInt8) (machine : Machine)
    (counted : machine.tempData.pageCount = setup.pageCount)
    (nextBounded : ∀ data, next.Bounded setup data) :
    MenuKeeps (Machine.Bounded setup) (ProcInfo.Counted setup)
      (machine.pageWrite setup page message next) := by
  have kept := (writeRequest_pageCount setup (machine.listMSI page) page machine.tempData).trans
    counted
  exact .of_send ⟨nextBounded _, kept⟩ ⟨⟨inRange, rfl⟩, kept⟩

theorem menuWriteSelect_bounded {setup : Setup} {page : Int} {machine : Machine}
    (fits : setup.pageCount ≤ maxSize) (offered : setup.Offered page)
    (counted : machine.tempData.pageCount = setup.pageCount) :
    (menuWriteSelect setup page machine).Bounded setup := by
  rcases offered.cases fits with rfl | inRange
  · exact ⟨trivial, counted⟩
  · have single := Setup.inRange_ne_all inRange
    have kept := writeSignals_kept (machine.listMSI page) page
      { machine.tempData with pageNum := page }
    simp only [menuWriteSelect, Setup.toInt_inRange inRange, if_neg single]
    refine ⟨⟨?_, rfl⟩, kept.2.trans counted⟩
    change setup.InRange (writeSignals _ _ _).pageNum
    rw [kept.1]
    exact inRange

theorem menuWriteMessage_bounded {setup : Setup} {machine : Machine}
    (message : List UInt8) (bounded : machine.Bounded setup) :
    MenuKeeps (Machine.Bounded setup) (ProcInfo.Counted setup)
      (menuWriteMessage message machine) := by
  cases place : machine.menu with
  | message =>
      have names := bounded.place
      rw [place] at names
      simp only [menuWriteMessage, place]
      exact .of_send ⟨trivial, bounded.counted⟩ ⟨names, bounded.counted⟩
  | messageAll =>
      simp only [menuWriteMessage, place]
      exact .of_silent ⟨Int.le_refl 0, bounded.counted⟩
  | _ =>
      simp only [menuWriteMessage, place]
      exact .of_silent bounded

theorem bounded_each {setup : Setup} (fits : setup.pageCount ≤ maxSize) :
    KeepsEach setup (Event.OffersPage setup) (Machine.Bounded setup)
      (ProcInfo.Counted setup) where
  read := by
    intro x page machine bounded offers
    rcases (offers page rfl).cases fits with rfl | inRange
    · rw [menuRead_all]
      exact .of_silent ⟨Int.le_refl 0, bounded.counted⟩
    · rw [menuRead_inRange inRange]
      exact pageRead_bounded inRange machine bounded.counted (fun _ => trivial)
        (fun _ => inRange)
  write := by
    intro x page message machine bounded offers
    exact menuWriteMessage_bounded message
      (menuWriteSelect_bounded fits (offers page rfl) bounded.counted)
  select := by
    intro x page machine bounded offers
    exact menuWriteSelect_bounded fits (offers page rfl) bounded.counted
  enter := by
    intro x message machine bounded _offers
    exact menuWriteMessage_bounded message bounded
  readAll := by
    intro count machine bounded place
    have lower := bounded.place
    rw [place] at lower
    change 0 ≤ count at lower
    by_cases more : count < machine.tempData.pageCount
    · have inRange : setup.InRange count := by
        have counted := bounded.counted
        exact ⟨lower, by omega, by omega⟩
      have next : 0 ≤ count + 1 := by omega
      rw [menuReadAll_more more]
      exact pageRead_bounded inRange machine bounded.counted (fun _ => next) (fun _ => inRange)
    · rw [menuReadAll_done more]
      exact .of_silent ⟨trivial, bounded.counted⟩
  writeAll := by
    intro count message machine bounded place
    have lower := bounded.place
    rw [place] at lower
    change 0 ≤ count at lower
    by_cases more : count < machine.tempData.pageCount
    · have inRange : setup.InRange count := by
        have counted := bounded.counted
        exact ⟨lower, by omega, by omega⟩
      have next : 0 ≤ count + 1 := by omega
      rw [menuWriteAll_more message more]
      exact pageWrite_bounded inRange message machine bounded.counted (fun _ => next)
    · rw [menuWriteAll_done message more]
      exact .of_silent ⟨trivial, bounded.counted⟩
  receive := by
    intro index next received machine bounded waiting
    have place := bounded.place
    refine ⟨?_, bounded.counted⟩
    change next.Bounded setup _
    generalize machine.menu = menu at place waiting
    cases menu with
    | awaitReply count =>
        cases waiting
        trivial
    | awaitReplyAll count =>
        cases waiting
        have lower : 0 ≤ index := place.1
        change 0 ≤ index + 1
        omega
    | _ => cases waiting
  serve := by
    intro recvData machine bounded counted
    refine ⟨?_, counted.counted⟩
    have place := bounded.place
    change machine.menu.Bounded setup recvData
    generalize machine.menu = menu at place
    cases menu with
    | message => exact counted.names
    | _ => exact place

/-! ### Staying inside, and when -/

/-- The system and the page that each user chose last for a `w` whose message is still
to be typed. -/
structure Watched where
  system : System
  chosen : Host → Int

def watchedStep (setup : Setup) : StepFunction Watched Event Output
  | watched, event =>
      match step setup watched.system event with
      | none => none
      | some (after, shown) =>
          let chosen :=
            match event with
            | .select x page => Function.update watched.chosen x page
            | _ => watched.chosen
          some (⟨after, chosen⟩, shown)

/-- The pages whose bytes a step may use: the one chosen, or all of them in a loop. -/
def Watched.selected (setup : Setup) (watched : Watched) : Event → Int → Prop
  | .read _ number, page | .write _ number _, page | .select _ number, page => page = number
  | .enter x _, page => page = watched.chosen x
  | .iterate _, page => setup.InRange page
  | .receive _, _ => False
  | .serve x, page => ∃ recvData ∈ (watched.system.inbox x).head?, recvData.pageNum = page

def Touched.Inside (setup : Setup) (selected : Int → Prop) : Touched → Prop
  | .entry index => setup.InRange index
  | .bytes offset length =>
      length = 0 ∨ ∃ page, selected page ∧ page * setup.pageSize ≤ offset ∧
        offset + length ≤ page * setup.pageSize + setup.pageSize

/-- The step uses nothing outside, and a number that is not offered does nothing. -/
structure StaysInside (setup : Setup) (watched : Watched) (event : Event) (after : System)
    (shown : List Output) : Prop where
  inside : ∀ access ∈ stepAccesses setup watched.system event,
    access.Inside setup (watched.selected setup event)
  refused : ∀ number, event.number = some number → ¬ setup.Offered number →
    after = watched.system ∧ ∀ x data, Output.sent x data ∉ shown

/-- The number is one the prompt offers, the message fits a page and goes to the chosen
one, and a page that is flushed holds a NUL. -/
def Proper (setup : Setup) (watched : Watched) : Event → Prop
  | .read _ number | .select _ number => setup.Offered number
  | .write _ number message =>
      setup.Offered number ∧
        (number ≠ -1 → (strBytes message).length ≤ setup.pageSize)
  | .enter x message =>
      (watched.system.machine x).menu = .message → strBytes message = [] ∨
        ((watched.system.machine x).tempData.pageNum = watched.chosen x ∧
          (strBytes message).length ≤ setup.pageSize)
  | .iterate x =>
      ∀ count message, (watched.system.machine x).menu = .writeAll count message →
        count < (watched.system.machine x).tempData.pageCount →
        (strBytes message).length ≤ setup.pageSize
  | .receive _ => True
  | .serve x =>
      ∀ recvData ∈ (watched.system.inbox x).head?,
        ((watched.system.machine x).listMSI recvData.pageNum).M = true →
        recvData.readSignal recvData.pageNum = 1 →
        (watched.system.machine x).EndsWithin setup recvData.pageNum

theorem Proper.offers {setup : Setup} {watched : Watched} {event : Event}
    (proper : Proper setup watched event) : event.OffersPage setup := by
  intro number typed
  cases event with
  | read x page =>
      cases typed
      exact proper
  | write x page message =>
      cases typed
      exact proper.1
  | select x page =>
      cases typed
      exact proper
  | _ => cases typed

theorem startUp_inside_iff (setup : Setup) (selected : Int → Prop) :
    (∀ access ∈ startUpAccesses setup.pageCount, access.Inside setup selected) ↔
      setup.pageCount ≤ maxSize := by
  unfold startUpAccesses
  constructor
  · intro inside
    by_contra exceeds
    have last : Touched.entry ((setup.pageCount.toNat - 1 : Nat) : Int) ∈
        (List.range setup.pageCount.toNat).map (fun i : Nat => Touched.entry i) := by
      apply List.mem_map_of_mem
      apply List.mem_range.mpr
      change ¬ setup.pageCount ≤ 4096 at exceeds
      omega
    obtain ⟨_lower, _mapped, upper⟩ := inside _ last
    change ¬ setup.pageCount ≤ 4096 at exceeds
    change ((setup.pageCount.toNat - 1 : Nat) : Int) < 4096 at upper
    omega
  · intro fits access member
    obtain ⟨i, within, rfl⟩ := List.mem_map.mp member
    have below := List.mem_range.mp within
    exact ⟨by omega, by omega, by omega⟩

/-! ### One step -/

section Step

variable {setup : Setup} {selected : Int → Prop} {page : Int}

theorem entry_inside (inRange : setup.InRange page) :
    (Touched.entry page).Inside setup selected := inRange

theorem bytes_inside (chosen : selected page) {length : Nat} (fits : length ≤ setup.pageSize) :
    (Touched.bytes (page * setup.pageSize) length).Inside setup selected := by
  have upper : (length : Int) ≤ setup.pageSize := Int.ofNat_le.mpr fits
  exact .inr ⟨page, chosen, Int.le_refl _, Int.add_le_add_left upper _⟩

/-- Bytes from the start of one page that lie in another selected page are none, or the
page is that one. -/
theorem bytes_inside_iff {length : Nat} :
    (Touched.bytes (page * setup.pageSize) length).Inside setup selected ↔
      length = 0 ∨ (selected page ∧ length ≤ setup.pageSize) := by
  constructor
  · intro inside
    rcases inside with none | ⟨other, chosen, lower, upper⟩
    · exact .inl none
    · by_cases none : length = 0
      · exact .inl none
      · by_cases same : other = page
        · subst same
          exact .inr ⟨chosen, by omega⟩
        · have positive := setup.pageSize_pos
          rcases setup.page_disjoint same lower (by omega) with before | behind
          · omega
          · omega
  · intro fits
    rcases fits with none | ⟨chosen, fits⟩
    · exact .inl none
    · exact bytes_inside chosen fits

theorem readPage_inside {machine : Machine} (inRange : setup.InRange page)
    (chosen : selected page) :
    ∀ access ∈ menuReadPageAccesses setup page
        { machine with
          tempData :=
            { machine.tempData with pageNum := page, accessPage := page * setup.pageSize } },
      access.Inside setup selected := by
  intro access member
  unfold menuReadPageAccesses at member
  simp only [] at member
  split at member
  · simp only [List.mem_cons, List.not_mem_nil, or_false] at member
    rcases member with rfl | rfl | rfl
    · exact entry_inside inRange
    · exact bytes_inside chosen (Nat.le_refl _)
    · exact entry_inside inRange
  · rw [List.mem_singleton.mp member]
    exact entry_inside inRange

theorem select_inside (fits : setup.pageCount ≤ maxSize) (offered : setup.Offered page) :
    ∀ access ∈ menuWriteSelectAccesses page, access.Inside setup selected := by
  have all : toInt (-1) = -1 := by decide
  intro access member
  rcases offered.cases fits with rfl | inRange
  · simp only [menuWriteSelectAccesses, all, if_true, List.not_mem_nil] at member
  · have single := Setup.inRange_ne_all inRange
    simp only [menuWriteSelectAccesses, Setup.toInt_inRange inRange, if_neg single,
      List.mem_singleton] at member
    rw [member]
    exact entry_inside inRange

theorem readAccesses_inside (fits : setup.pageCount ≤ maxSize) (offered : setup.Offered page)
    (chosen : selected page) (machine : Machine) :
    ∀ access ∈ menuReadAccesses setup page machine, access.Inside setup selected := by
  have all : toInt (-1) = -1 := by decide
  intro access member
  rcases offered.cases fits with rfl | inRange
  · simp only [menuReadAccesses, all, if_true, List.not_mem_nil] at member
  · have single := Setup.inRange_ne_all inRange
    simp only [menuReadAccesses, Setup.toInt_inRange inRange, if_neg single] at member
    exact readPage_inside inRange chosen access member

/-- At a message prompt the copy is inside when there is none, or `temp_data` names the
chosen page and the message fits. -/
theorem message_inside_iff {machine : Machine} (message : List UInt8)
    (place : machine.menu = .message) (names : machine.tempData.Names setup) :
    (∀ access ∈ menuWriteMessageAccesses message machine, access.Inside setup selected) ↔
      strBytes message = [] ∨
        (selected machine.tempData.pageNum ∧ (strBytes message).length ≤ setup.pageSize) := by
  simp only [menuWriteMessageAccesses, place, names.2, List.forall_mem_singleton,
    bytes_inside_iff, List.length_eq_zero_iff]

theorem message_elsewhere {machine : Machine} (message : List UInt8)
    (place : machine.menu ≠ .message) : menuWriteMessageAccesses message machine = [] := by
  unfold menuWriteMessageAccesses
  split
  · rename_i here
    exact absurd here place
  · rfl

/-- What the receive loop uses is inside when the string it flushes ends within the page. -/
theorem serve_inside_iff {recvData : ProcInfo} {machine : Machine}
    (names : recvData.Names setup) (chosen : selected recvData.pageNum) :
    (∀ access ∈ serverReceiveAccesses setup recvData machine, access.Inside setup selected) ↔
      ((machine.listMSI recvData.pageNum).M = true →
        recvData.readSignal recvData.pageNum = 1 →
        machine.EndsWithin setup recvData.pageNum) := by
  obtain ⟨inRange, offset⟩ := names
  have room : setup.pageSize ≤ setup.rest (recvData.pageNum * setup.pageSize) := by
    have last : (recvData.pageNum + 1) * setup.pageSize ≤ setup.pageCount * setup.pageSize :=
      Int.mul_le_mul_of_nonneg_right inRange.2.1 (Int.natCast_nonneg _)
    rw [Int.add_mul, Int.one_mul] at last
    unfold Setup.rest
    omega
  have entry : (Touched.entry recvData.pageNum).Inside setup selected := inRange
  unfold serverReceiveAccesses
  rw [offset]
  split
  · rename_i flush
    simp only [List.forall_mem_cons, List.not_mem_nil, false_implies, implies_true, and_true,
      entry, true_and, bytes_inside_iff, flush.1, flush.2, true_implies, chosen]
    rw [Machine.EndsWithin, ← cString_length_lt_iff _ _ room]
    omega
  · rename_i quiet
    simp only [List.forall_mem_singleton, entry, true_iff]
    intro owned asks
    exact absurd ⟨owned, asks⟩ quiet

end Step

theorem awaiting_inRange {setup : Setup} {machine : Machine} {index : Int} {next : Menu}
    (bounded : machine.Bounded setup) (waiting : machine.menu.awaiting = some (index, next)) :
    setup.InRange index := by
  have place := bounded.place
  generalize machine.menu = menu at place waiting
  cases menu with
  | awaitReply count =>
      cases waiting
      exact place
  | awaitReplyAll count =>
      cases waiting
      exact place
  | _ => cases waiting

theorem loop_inRange {setup : Setup} {machine : Machine} {count : Int}
    (fits : setup.pageCount ≤ maxSize) (bounded : machine.Bounded setup) (lower : 0 ≤ count)
    (more : count < machine.tempData.pageCount) : setup.InRange count := by
  have counted := bounded.counted
  exact ⟨lower, by omega, by omega⟩

theorem Proper.inside {setup : Setup} (fits : setup.pageCount ≤ maxSize) {watched : Watched}
    (state : watched.system.Fits (Machine.Bounded setup) (ProcInfo.Counted setup))
    {event : Event} (proper : Proper setup watched event) :
    ∀ access ∈ stepAccesses setup watched.system event,
      access.Inside setup (watched.selected setup event) := by
  cases event with
  | read x page =>
      have chosen : watched.selected setup (.read x page) page := rfl
      exact readAccesses_inside fits proper chosen _
  | select x page => exact select_inside fits proper
  | write x page message =>
      obtain ⟨offered, short⟩ := proper
      have bounded := menuWriteSelect_bounded fits offered (state.machines x).counted
      intro access member
      rcases List.mem_append.mp member with select | copy
      · exact select_inside fits offered access select
      · rcases offered.cases fits with rfl | inRange
        · rw [message_elsewhere message Menu.noConfusion] at copy
          cases copy
        · obtain ⟨place, named⟩ :=
            menuWriteSelect_inRange inRange (watched.system.machine x)
          have names := bounded.place
          rw [place] at names
          exact (message_inside_iff message place names).mpr
            (.inr ⟨named, short (Setup.inRange_ne_all inRange)⟩) access copy
  | enter x message =>
      by_cases place : (watched.system.machine x).menu = .message
      · have names := (state.machines x).place
        rw [place] at names
        exact (message_inside_iff message place names).mpr (proper place)
      · intro access member
        simp only [stepAccesses, message_elsewhere message place, List.not_mem_nil] at member
  | iterate x =>
      have bounded := state.machines x
      have lower := bounded.place
      intro access member
      simp only [stepAccesses] at member
      split at member
      · rename_i count place
        rw [place] at lower
        unfold menuReadAllAccesses at member
        split at member
        · rename_i more
          have inRange := loop_inRange fits bounded lower more
          exact readPage_inside inRange inRange access member
        · cases member
      · rename_i count message place
        rw [place] at lower
        unfold menuWriteAllAccesses at member
        split at member
        · rename_i more
          have inRange := loop_inRange fits bounded lower more
          simp only [List.mem_cons, List.not_mem_nil, or_false] at member
          rcases member with rfl | rfl
          · exact entry_inside inRange
          · exact bytes_inside inRange (proper count message place more)
        · cases member
      · cases member
  | receive x =>
      intro access member
      simp only [stepAccesses] at member
      split at member
      · rename_i index next waiting
        rw [List.mem_singleton.mp member]
        exact entry_inside (awaiting_inRange (state.machines x) waiting)
      · cases member
  | serve x =>
      simp only [stepAccesses]
      cases oldest : watched.system.inbox x with
      | nil =>
          intro access member
          cases member
      | cons recvData rest =>
          have first : recvData ∈ (watched.system.inbox x).head? := by rw [oldest]; rfl
          have counted := state.structs x recvData (List.mem_of_mem_head? first)
          exact (serve_inside_iff counted.names ⟨recvData, first, rfl⟩).mpr
            (proper recvData first)

private theorem menuRead_pageNum (setup : Setup) (page : Int) (machine : Machine) :
    (menuRead setup page machine).1.tempData.pageNum = page := by
  unfold menuRead menuReadPage
  simp only []
  split
  · rfl
  · split
    · rfl
    · split <;> rfl

private theorem menuWriteSelect_pageNum (setup : Setup) (page : Int) (machine : Machine) :
    (menuWriteSelect setup page machine).tempData.pageNum = page := by
  unfold menuWriteSelect
  simp only []
  split
  · rfl
  · exact (writeSignals_kept _ _ _).1

private theorem menuWriteMessage_pageNum (message : List UInt8) (machine : Machine) :
    (menuWriteMessage message machine).1.tempData.pageNum = machine.tempData.pageNum := by
  unfold menuWriteMessage
  split <;> rfl

theorem step_pageNum {setup : Setup} {s after : System} {event : Event} {shown : List Output}
    {number : Int} (typed : event.number = some number)
    (accepted : step setup s event = some (after, shown)) :
    (after.machine event.host).tempData.pageNum = number := by
  cases Performs.of_step accepted with
  | read x page _ready =>
      change ((s.apply x _).1.machine x).tempData.pageNum = number
      rw [System.apply_machine_self, menuRead_pageNum]
      exact Option.some.inj typed
  | write x page message _ready =>
      change ((s.apply x _).1.machine x).tempData.pageNum = number
      rw [System.apply_machine_self, menuWrite, menuWriteMessage_pageNum, menuWriteSelect_pageNum]
      exact Option.some.inj typed
  | select x page _ready =>
      change ((s.apply x _).1.machine x).tempData.pageNum = number
      rw [System.apply_machine_self, menuWriteSelect_pageNum]
      exact Option.some.inj typed
  | _ => cases typed

/-- A step that stays inside was proper, unless the number typed was there before. -/
theorem StaysInside.proper {setup : Setup} (fits : setup.pageCount ≤ maxSize)
    {watched : Watched}
    (state : watched.system.Fits (Machine.Bounded setup) (ProcInfo.Counted setup))
    {event : Event} {after : System} {shown : List Output}
    (accepted : step setup watched.system event = some (after, shown))
    (renamed : ∀ number, event.number = some number →
      (watched.system.machine event.host).tempData.pageNum ≠ number)
    (stays : StaysInside setup watched event after shown) : Proper setup watched event := by
  have offered : event.OffersPage setup := by
    intro number typed
    by_contra outside
    have same := (stays.refused number typed outside).1
    have named := step_pageNum typed accepted
    rw [same] at named
    exact renamed number typed named
  have inside := stays.inside
  cases event with
  | read x page => exact offered page rfl
  | select x page => exact offered page rfl
  | write x page message =>
      refine ⟨offered page rfl, ?_⟩
      intro single
      have bounded := menuWriteSelect_bounded fits (offered page rfl) (state.machines x).counted
      obtain ⟨place, _named⟩ := menuWriteSelect_inRange
        (((offered page rfl).cases fits).resolve_left single) (watched.system.machine x)
      have names := bounded.place
      rw [place] at names
      have copied := (message_inside_iff message place names).mp
        (fun access member => inside access (List.mem_append_right _ member))
      rcases copied with none | ⟨_chosen, short⟩
      · rw [none]
        exact Nat.zero_le _
      · exact short
  | enter x message =>
      intro place
      have names := (state.machines x).place
      rw [place] at names
      exact (message_inside_iff message place names).mp inside
  | iterate x =>
      intro count message place more
      have copied := inside (.bytes (count * setup.pageSize) (strBytes message).length)
        (by simp [stepAccesses, place, menuWriteAllAccesses, if_pos more])
      rcases bytes_inside_iff.mp copied with none | ⟨_chosen, short⟩
      · rw [none]
        exact Nat.zero_le _
      · exact short
  | receive x => trivial
  | serve x =>
      intro recvData first
      have counted := state.structs x recvData (List.mem_of_mem_head? first)
      obtain ⟨rest, oldest⟩ : ∃ rest, watched.system.inbox x = recvData :: rest :=
        List.head?_eq_some_iff.mp first
      simp only [stepAccesses, oldest] at inside
      exact (serve_inside_iff counted.names ⟨recvData, first, rfl⟩).mp inside

/-! ### Runs -/

theorem watchedStep_system {setup : Setup} {watched after : Watched} {event : Event}
    {shown : List Output} (accepted : watchedStep setup watched event = some (after, shown)) :
    step setup watched.system event = some (after.system, shown) := by
  simp only [watchedStep] at accepted
  split at accepted
  · cases accepted
  · rename_i next outputs moved
    cases accepted
    exact moved

theorem proper_run_fits {setup : Setup} (fits : setup.pageCount ≤ maxSize)
    {start final : Watched} {events : List Event} {outputs : List Output}
    (cold : Initial setup start.system)
    (run : Run (watchedStep setup) (Proper setup) start events outputs final) :
    final.system.Fits (Machine.Bounded setup) (ProcInfo.Counted setup) := by
  have initially : start.system.Fits (Machine.Bounded setup) (ProcInfo.Counted setup) := by
    constructor
    · intro x
      refine ⟨?_, cold.counted x⟩
      rw [cold.prompt x]
      trivial
    · intro x data member
      rw [cold.inboxEmpty x] at member
      cases member
  refine run.invariant (fun watched => watched.system.Fits (Machine.Bounded setup)
    (ProcInfo.Counted setup)) initially ?_
  intro before event after shown state proper accepted
  exact state.step (bounded_each fits) proper.offers (watchedStep_system accepted)

/-- With a page count that the tables hold, every run of proper steps stays inside, and
the first improper one does not. -/
theorem commands_inside (setup : Setup) :
    ((∀ access ∈ startUpAccesses setup.pageCount,
        access.Inside setup (fun page => setup.InRange page)) ↔ setup.pageCount ≤ maxSize) ∧
    (setup.pageCount ≤ maxSize →
      ∀ (start final : Watched) (events : List Event) (outputs : List Output),
        Initial setup start.system →
        Run (watchedStep setup) (Proper setup) start events outputs final →
        ∀ (event : Event) (after : System) (shown : List Output),
          step setup final.system event = some (after, shown) →
          (Proper setup final event → StaysInside setup final event after shown) ∧
          ((∀ number, event.number = some number →
              (final.system.machine event.host).tempData.pageNum ≠ number) →
            StaysInside setup final event after shown → Proper setup final event)) := by
  refine ⟨startUp_inside_iff setup _, ?_⟩
  intro fits start final events outputs cold run event after shown accepted
  have state := proper_run_fits fits cold run
  constructor
  · intro proper
    refine ⟨proper.inside fits state, ?_⟩
    intro number typed outside
    exact absurd (proper.offers number typed) outside
  · intro renamed stays
    exact stays.proper fits state accepted renamed

/-! ### A page inside, and a number outside -/

private def freshDesk : Watched := ⟨freshSystem twoPages, fun _ => 0⟩

private theorem freshDesk_write (page : Int) :
    ∃ after shown, step twoPages freshDesk.system (.write .one page [97]) =
      some (after, shown) := by
  have ready : (freshDesk.system.machine .one).menu = .prompt := rfl
  simp only [step, if_pos ready]
  exact ⟨_, _, rfl⟩

theorem commands_inside_write :
    ∃ after shown, step twoPages freshDesk.system (.write .one 1 [97]) = some (after, shown) ∧
      StaysInside twoPages freshDesk (.write .one 1 [97]) after shown := by
  obtain ⟨after, shown, accepted⟩ := freshDesk_write 1
  have proper : Proper twoPages freshDesk (.write .one 1 [97]) := by
    refine ⟨by decide, fun _single => by decide⟩
  exact ⟨after, shown, accepted, ((commands_inside twoPages).2 (by decide) freshDesk freshDesk []
    [] (freshSystem_initial twoPages) .stop _ after shown accepted).1 proper⟩

theorem commands_inside_fails :
    ¬ ∀ (setup : Setup) (start final : Watched) (events : List Event) (outputs : List Output),
      Initial setup start.system →
      Run (watchedStep setup) (fun _ _ => True) start events outputs final →
      ∀ (event : Event) (after : System) (shown : List Output),
        step setup final.system event = some (after, shown) →
        StaysInside setup final event after shown := by
  intro general
  obtain ⟨after, shown, accepted⟩ := freshDesk_write 2
  have stays := general twoPages freshDesk freshDesk [] [] (freshSystem_initial twoPages) .stop
    _ after shown accepted
  have entry := stays.inside (.entry 2) (by decide)
  exact absurd (show twoPages.InRange 2 from entry) (by decide)

end LKP.Dsm
