import LKP.Dsm.PagedRegion

/-
The two machines with regions that are filled page by page show what the two machines with
regions of zeros show.

A function first makes its accesses, then acts on the bytes that are there.  While numbers
are offered and messages are shorter than a page every access is to a page of the region, so
that the handler is never refused and no thread is left asleep.
-/

set_option autoImplicit false

namespace LKP.Dsm

open TransitionRun CBuffer DemandPaging

def Machine.over (machine : Machine) (addr : Buffer) : Machine := { machine with addr := addr }

/-- The two machines and their regions; the field `addr` of a machine is filled in from the
region when one of its functions runs. -/
structure PagedSystem where
  system : System
  region : Host → Region Buffer

def pagedStep (setup : Setup) (base : Host → Nat) : StepFunction PagedSystem Event Output
  | s, event =>
      let x := event.host
      let accessing := stepUses setup s.system event
      let pager := faultHandlerThread setup (base x) accessing.tempData
      match usesOn setup.layout pager accessing.uses (s.region x) with
      | none => none
      | some region =>
          match step setup (s.system.put x ((s.system.machine x).over region.bytes)) event with
          | none => none
          | some (after, shown) =>
              some (⟨after, Function.update s.region x
                { region with bytes := (after.machine x).addr }⟩, shown)

/-! ### A function on the bytes that are there -/

abbrev Backs (setup : Setup) (region : Region Buffer) (plain : Buffer) : Prop :=
  region.StandsFor setup.layout (BlankPage setup) (fun _ => 0) plain

section Functions

variable {setup : Setup} {region : Region Buffer} {plain : Buffer} {page : Int}

theorem inside_page (inRange : setup.InRange page) {offset : Int}
    (lower : page * setup.pageSize ≤ offset)
    (upper : offset < page * setup.pageSize + setup.pageSize) : setup.layout.Inside offset := by
  have inside := @Layout.inside_of_page setup.layout page inRange.1 inRange.2.1
    (offset - page * setup.pageSize) (by omega) (by
      change offset - page * setup.pageSize < setup.pageSize
      omega)
  rw [Layout.start] at inside
  change setup.layout.Inside (page * setup.pageSize + (offset - page * setup.pageSize)) at inside
  rwa [add_sub_cancel] at inside

theorem Backs.bytes (backs : Backs setup region plain) {pager : Pager Buffer}
    (provides : pager.Provides setup.layout (BlankPage setup) (fun _ => 0))
    (inRange : setup.InRange page) {length : Nat} (fits : length ≤ setup.pageSize) :
    ∃ after, region.touchEach setup.layout pager ((List.range length).map
          (fun index : Nat => page * setup.pageSize + index)) = some after ∧
      region.Served setup.layout (BlankPage setup) (fun _ => 0) plain
        (fun offset => page * setup.pageSize ≤ offset ∧
          offset < page * setup.pageSize + length) after :=
  backs.touchBlock provides
    (fun _offset lower upper => inside_page inRange lower (by omega))

/-- A text of the region is read as from the zeroed region. -/
theorem Backs.text (backs : Backs setup region plain) {pager : Pager Buffer}
    (provides : pager.Provides setup.layout (BlankPage setup) (fun _ => 0)) (offset : Int)
    (lower : 0 ≤ offset) :
    ∃ after, region.touchText setup.layout pager (setup.rest offset) offset = some after ∧
      region.Served setup.layout (BlankPage setup) (fun _ => 0) plain (fun _ => False) after ∧
      cString after.bytes offset (setup.rest offset) =
        cString plain offset (setup.rest offset) := by
  apply backs.touchText provides
  intro index first last
  unfold Setup.rest at last
  change 0 ≤ offset + index ∧ offset + index < setup.pageCount * setup.pageSize
  omega

/-- The function does with the bytes of the region what it does with the zeroed region. -/
def Imitates (setup : Setup) (region : Region Buffer) (paged plain : Machine × MenuEffect) :
    Prop :=
  ∃ bytes, paged = (plain.1.over bytes, plain.2) ∧
    Backs setup { region with bytes := bytes } plain.1.addr

def Serves (setup : Setup) (base : Nat) (region : Region Buffer) (accessing : Accessing)
    (function : Machine → Machine × MenuEffect) (machine : Machine) : Prop :=
  ∃ after, usesOn setup.layout (faultHandlerThread setup base accessing.tempData)
      accessing.uses region = some after ∧
    Imitates setup after (function (machine.over after.bytes)) (function machine)

variable {base : Nat} {machine : Machine}

/-- A function that does not look at the region. -/
theorem Serves.blind {accessing : Accessing} {function : Machine → Machine × MenuEffect}
    (backs : Backs setup region machine.addr) (none : accessing.uses = [])
    (same : function (machine.over region.bytes) =
      ((function machine).1.over region.bytes, (function machine).2))
    (kept : (function machine).1.addr = machine.addr) :
    Serves setup base region accessing function machine := by
  refine ⟨region, by rw [none]; rfl, region.bytes, same, ?_⟩
  rw [kept]
  exact backs

theorem pageRead_serves (backs : Backs setup region machine.addr)
    (mapped : setup.MappedAt base) (inRange : setup.InRange page)
    (counted : machine.tempData.pageCount = setup.pageCount) (held waiting : Menu) :
    Serves setup base region
      (menuReadPageUses setup page
        { machine with
          tempData :=
            { machine.tempData with pageNum := page, accessPage := page * setup.pageSize } })
      (Machine.pageRead setup page held waiting) machine := by
  unfold menuReadPageUses Serves
  by_cases absent : (machine.listMSI page).I = true
  · simp only [absent, if_true, usesOn]
    have provides := @faultHandlerThread_provides setup base mapped
      { machine.tempData with pageNum := page, accessPage := page * setup.pageSize } counted
    obtain ⟨after, touched, served⟩ :=
      backs.bytes provides inRange (Nat.le_refl setup.pageSize)
    refine ⟨after, by rw [touched], memset after.bytes (page * setup.pageSize) 0 setup.pageSize,
      ?_, ?_⟩
    · simp only [Machine.pageRead, Machine.over, absent, if_true]
      rfl
    · simp only [Machine.pageRead, absent, if_true]
      exact served.standsFor.cleared served.available 0
  · by_cases present : (machine.listMSI page).S = true ∨ (machine.listMSI page).M = true
    · simp only [if_neg absent, if_pos present, usesOn]
      have provides := @faultHandlerThread_provides setup base mapped
        { machine.tempData with pageNum := page, accessPage := page * setup.pageSize } counted
      have lower : 0 ≤ page * setup.pageSize :=
        Int.mul_nonneg inRange.1 (Int.natCast_nonneg _)
      obtain ⟨after, touched, served, text⟩ := backs.text provides _ lower
      refine ⟨after, by rw [touched], after.bytes, ?_, ?_⟩
      · simp only [Machine.pageRead, Machine.over, if_neg absent, if_pos present,
          Machine.pageText, text]
        rfl
      · simp only [Machine.pageRead, if_neg absent, if_pos present]
        exact served.standsFor
    · simp only [if_neg absent, if_neg present, usesOn]
      have neither : ∀ other : Machine, other.listMSI = machine.listMSI →
          other.pageRead setup page held waiting =
            (other.afterHit setup page held, .silent) := by
        intro other same
        unfold Machine.pageRead
        rw [same, if_neg absent, if_neg present]
      simp only [Imitates, neither machine rfl]
      exact ⟨region, rfl, region.bytes, neither _ rfl, backs⟩

theorem menuRead_serves (backs : Backs setup region machine.addr)
    (mapped : setup.MappedAt base) (offered : setup.Offered page)
    (counted : machine.tempData.pageCount = setup.pageCount) :
    Serves setup base region (menuReadUses setup page machine) (menuRead setup page)
      machine := by
  rcases offered.cases mapped.entries with rfl | inRange
  · apply Serves.blind backs
    · rfl
    · rw [menuRead_all, menuRead_all]
      rfl
    · rw [menuRead_all]
  · have single := Setup.inRange_ne_all inRange
    have whole := pageRead_serves backs mapped inRange counted .prompt (.awaitReply page)
    simp only [Serves, menuReadUses, Setup.toInt_inRange inRange, if_neg single,
      menuRead_inRange inRange]
    exact whole

theorem menuReadAll_serves (backs : Backs setup region machine.addr)
    (mapped : setup.MappedAt base) {count : Int} (lower : 0 ≤ count)
    (counted : machine.tempData.pageCount = setup.pageCount) :
    Serves setup base region (menuReadAllUses setup count machine) (menuReadAll setup count)
      machine := by
  by_cases more : count < machine.tempData.pageCount
  · have entries := mapped.entries
    have inRange : setup.InRange count := ⟨lower, by omega, by omega⟩
    have whole := pageRead_serves backs mapped inRange counted (.readAll (count + 1))
      (.awaitReplyAll count)
    have paged : ∀ addr, menuReadAll setup count (machine.over addr) =
        (machine.over addr).pageRead setup count (.readAll (count + 1))
          (.awaitReplyAll count) := fun _ => menuReadAll_more more
    simp only [Serves, menuReadAllUses, if_pos more, menuReadAll_more more, paged]
    exact whole
  · apply Serves.blind backs
    · simp only [menuReadAllUses, if_neg more]
    · rw [menuReadAll_done more]
      exact menuReadAll_done more
    · rw [menuReadAll_done more]

/-- The copy of the single `w`, and the text that is printed after it. -/
theorem menuWriteMessage_serves (backs : Backs setup region machine.addr)
    (mapped : setup.MappedAt base) (bounded : machine.Bounded setup) {message : List UInt8}
    (short : (strBytes message).length < setup.pageSize) :
    Serves setup base region (menuWriteMessageUses setup message machine)
      (menuWriteMessage message) machine := by
  cases place : machine.menu with
  | message =>
      have names := bounded.place
      rw [place] at names
      have provides := faultHandlerThread_provides mapped bounded.counted
      obtain ⟨middle, copied, first⟩ := backs.bytes provides names.1 (Nat.le_of_lt short)
      have lower : 0 ≤ machine.tempData.pageNum * setup.pageSize :=
        Int.mul_nonneg names.1.1 (Int.natCast_nonneg _)
      obtain ⟨after, printed, served, _text⟩ := Backs.text first.standsFor provides
        (machine.tempData.pageNum * setup.pageSize + (strBytes message).length) (by omega)
      simp only [Serves, Imitates, menuWriteMessageUses, place, menuWriteMessage, Machine.over,
        names.2, usesOn, copied, printed]
      exact ⟨after, rfl, _, rfl, served.standsFor.copied
        (fun offset bounds => served.kept _ (first.available offset bounds))⟩
  | messageAll =>
      apply Serves.blind backs
      · simp only [menuWriteMessageUses, place]
      · simp only [menuWriteMessage, place, Machine.over]
      · simp only [menuWriteMessage, place]
  | _ =>
      apply Serves.blind backs
      · simp only [menuWriteMessageUses, place]
      · simp only [menuWriteMessage, place, Machine.over]
      · simp only [menuWriteMessage, place]

theorem menuWriteAllUses_more {count : Int} (message : List UInt8)
    (more : count < machine.tempData.pageCount) :
    (menuWriteAllUses setup count message machine).uses =
        [.bytes (count * setup.pageSize) (strBytes message).length] ∧
      (menuWriteAllUses setup count message machine).tempData.pageCount =
        machine.tempData.pageCount := by
  have kept := writeSignals_kept (machine.listMSI count) count
    { machine.tempData with pageNum := count }
  rw [menuWriteAllUses, if_pos more]
  exact ⟨by simp only [kept.1], kept.2⟩

theorem menuWriteAll_serves (backs : Backs setup region machine.addr)
    (mapped : setup.MappedAt base) {count : Int} (lower : 0 ≤ count)
    (counted : machine.tempData.pageCount = setup.pageCount) {message : List UInt8}
    (short : (strBytes message).length < setup.pageSize) :
    Serves setup base region (menuWriteAllUses setup count message machine)
      (menuWriteAll setup count message) machine := by
  by_cases more : count < machine.tempData.pageCount
  · have entries := mapped.entries
    have inRange : setup.InRange count := ⟨lower, by omega, by omega⟩
    obtain ⟨uses, same⟩ := @menuWriteAllUses_more setup machine count message more
    have provides := faultHandlerThread_provides mapped (same.trans counted)
    obtain ⟨after, copied, served⟩ := backs.bytes provides inRange (Nat.le_of_lt short)
    have paged : ∀ addr, menuWriteAll setup count message (machine.over addr) =
        (machine.over addr).pageWrite setup count message (.writeAll (count + 1) message) :=
      fun _ => menuWriteAll_more message more
    simp only [Serves, Imitates, uses, menuWriteAll_more message more, paged, usesOn, copied]
    exact ⟨after, rfl, _, rfl, served.standsFor.copied served.available⟩
  · apply Serves.blind backs
    · simp only [menuWriteAllUses, if_neg more]
    · rw [menuWriteAll_done message more]
      exact menuWriteAll_done message more
    · rw [menuWriteAll_done message more]

theorem serverReply_unread {entry : MSIList} {recvData : ProcInfo}
    (reads : ¬ (entry.M = true ∧ recvData.readSignal recvData.pageNum = 1))
    (one other : List UInt8) :
    serverReply entry recvData one = serverReply entry recvData other := by
  simp only [serverReply, if_neg reads]

/-- The receive loop flushes from the region what it flushes from the zeroed region. -/
theorem serverReceive_serves (backs : Backs setup region machine.addr)
    (mapped : setup.MappedAt base) {recvData : ProcInfo} (counted : recvData.Counted setup) :
    ∃ after, usesOn setup.layout
        (faultHandlerThread setup base (serverReceiveUses setup recvData machine).tempData)
        (serverReceiveUses setup recvData machine).uses region = some after ∧
      serverReceive setup recvData (machine.over after.bytes) =
        ((serverReceive setup recvData machine).1.over after.bytes,
          (serverReceive setup recvData machine).2) ∧
      Backs setup after machine.addr := by
  have provides := faultHandlerThread_provides mapped counted.counted
  unfold serverReceiveUses
  by_cases flushes : (machine.listMSI recvData.pageNum).M = true ∧
      recvData.readSignal recvData.pageNum = 1
  · have lower : 0 ≤ recvData.accessPage := by
      rw [counted.names.2]
      exact Int.mul_nonneg counted.names.1.1 (Int.natCast_nonneg _)
    obtain ⟨after, read, served, text⟩ := backs.text provides _ lower
    simp only [if_pos flushes, usesOn, read]
    refine ⟨after, rfl, ?_, served.standsFor⟩
    rw [serverReceive_eq, serverReceive_eq]
    simp only [Machine.over, Machine.afterServe, text]
  · simp only [if_neg flushes, usesOn]
    refine ⟨region, rfl, ?_, backs⟩
    rw [serverReceive_eq, serverReceive_eq]
    exact congrArg (Prod.mk _) (serverReply_unread flushes _ _)

end Functions

/-! ### A step of the two systems -/

structure SameBut (s t : System) : Prop where
  machines : ∀ x, ∃ addr, s.machine x = (t.machine x).over addr
  inbox : s.inbox = t.inbox
  replies : s.replies = t.replies

structure PagedSystem.StandsIn (setup : Setup) (paged : PagedSystem) (plain : System) :
    Prop where
  same : SameBut paged.system plain
  backs : ∀ x, Backs setup (paged.region x) (plain.machine x).addr

section Systems

variable {setup : Setup} {s t : System} {x : Host}

theorem SameBut.menu (same : SameBut s t) (x : Host) :
    (s.machine x).menu = (t.machine x).menu := by
  obtain ⟨addr, own⟩ := same.machines x
  rw [own]
  rfl

theorem SameBut.put (same : SameBut s t) (x : Host) (machine : Machine) (addr : Buffer) :
    SameBut (s.put x (machine.over addr)) (t.put x machine) := by
  refine ⟨?_, same.inbox, same.replies⟩
  intro z
  rcases Host.eq_or_eq_peer x z with rfl | rfl
  · rw [System.put_machine_self, System.put_machine_self]
    exact ⟨addr, rfl⟩
  · rw [System.put_machine_peer, System.put_machine_peer]
    exact same.machines _

/-- Another region for one machine. -/
theorem SameBut.refill (same : SameBut s t) (x : Host) (addr : Buffer) :
    SameBut (s.put x ((s.machine x).over addr)) t := by
  refine ⟨?_, same.inbox, same.replies⟩
  intro z
  rcases Host.eq_or_eq_peer x z with rfl | rfl
  · obtain ⟨old, own⟩ := same.machines z
    rw [System.put_machine_self, own]
    exact ⟨addr, rfl⟩
  · rw [System.put_machine_peer]
    exact same.machines _

theorem SameBut.apply (same : SameBut s t) (x : Host) (result : Machine × MenuEffect)
    (addr : Buffer) :
    SameBut (s.apply x (result.1.over addr, result.2)).1 (t.apply x result).1 ∧
      (s.apply x (result.1.over addr, result.2)).2 = (t.apply x result).2 := by
  obtain ⟨machine, effect⟩ := result
  have put := same.put x machine addr
  cases effect with
  | silent => exact ⟨put, rfl⟩
  | display text => exact ⟨put, rfl⟩
  | send data =>
      refine ⟨⟨put.machines, ?_, put.replies⟩, rfl⟩
      simp only [System.apply, System.post, System.put_inbox, same.inbox]

theorem SameBut.accepts (same : SameBut s t) (event : Event) :
    (step setup s event).isSome = (step setup t event).isSome := by
  cases event with
  | read x page =>
      simp only [step, same.menu]
      split
      · rfl
      · rfl
  | write x page message =>
      simp only [step, same.menu]
      split
      · rfl
      · rfl
  | select x page =>
      simp only [step, same.menu]
      split
      · rfl
      · rfl
  | enter x message =>
      simp only [step, same.menu]
      split
      · rfl
      · rfl
  | iterate x =>
      simp only [step, same.menu]
      split
      · rfl
      · rfl
      · rfl
  | receive x =>
      simp only [step, same.menu, same.replies]
      split
      · rfl
      · split
        · rfl
        · rfl
  | serve x =>
      simp only [step, same.inbox]
      split
      · rfl
      · rfl

theorem SameBut.unread (same : SameBut s t) (x : Host) (left : List UInt8) :
    SameBut (s.unread x left) (t.unread x left) := by
  refine ⟨same.machines, same.inbox, ?_⟩
  simp only [System.unread, same.replies]

/-- The next state of a paged system whose machine `x` has moved to that of `next`, its region
standing for the bytes it has there. -/
theorem PagedSystem.StandsIn.moved {paged : PagedSystem} (standsIn : paged.StandsIn setup t)
    {s next : System} {region : Region Buffer} (same : SameBut s next)
    (own : Backs setup { region with bytes := (s.machine x).addr } (next.machine x).addr)
    (peer : next.machine x.peer = t.machine x.peer) :
    PagedSystem.StandsIn setup
      ⟨s, Function.update paged.region x { region with bytes := (s.machine x).addr }⟩ next := by
  refine ⟨same, ?_⟩
  intro z
  rcases Host.eq_or_eq_peer x z with rfl | rfl
  · simp only [Function.update_self]
    exact own
  · simp only [Function.update_of_ne (Host.peer_ne x)]
    rw [peer]
    exact standsIn.backs _

theorem menuWriteSelect_over (page : Int) (machine : Machine) (addr : Buffer) :
    menuWriteSelect setup page (machine.over addr) =
      (menuWriteSelect setup page machine).over addr := by
  unfold menuWriteSelect
  simp only []
  split
  · rfl
  · rfl

/-- The accesses do not depend on what the regions hold. -/
theorem SameBut.uses (same : SameBut s t) (event : Event) :
    stepUses setup s event = stepUses setup t event := by
  obtain ⟨addr, own⟩ := same.machines event.host
  cases event with
  | read x page =>
      simp only [stepUses, Event.host] at own ⊢
      rw [own]
      rfl
  | write x page message =>
      simp only [stepUses, Event.host] at own ⊢
      rw [own, menuWriteSelect_over]
      rfl
  | select x page =>
      simp only [stepUses, Event.host] at own ⊢
      rw [own]
      rfl
  | enter x message =>
      simp only [stepUses, Event.host] at own ⊢
      rw [own]
      rfl
  | iterate x =>
      simp only [stepUses, Event.host] at own ⊢
      rw [own]
      rfl
  | receive x =>
      simp only [stepUses, Event.host] at own ⊢
      rw [own]
      rfl
  | serve x =>
      simp only [stepUses, Event.host] at own ⊢
      rw [own, same.inbox]
      rfl

/-- Both systems after a function of the menu, which may first have taken a reply. -/
theorem PagedSystem.StandsIn.menu {paged : PagedSystem} {base : Host → Nat}
    (standsIn : paged.StandsIn setup t) {accessing : Accessing}
    {function : Machine → Machine × MenuEffect}
    (serves : Serves setup (base x) (paged.region x) accessing function (t.machine x))
    (event : Event) (host : event.host = x) (uses : stepUses setup t event = accessing)
    (takes : System → System) (taken : ∀ s, SameBut s t → SameBut (takes s) (takes t))
    (others : (takes t).machine = t.machine)
    (runs : ∀ s, SameBut s t →
      step setup s event = some ((takes s).apply x (function (s.machine x)))) :
    ∃ after, pagedStep setup base paged event =
        some (after, ((takes t).apply x (function (t.machine x))).2) ∧
      after.StandsIn setup ((takes t).apply x (function (t.machine x))).1 := by
  obtain ⟨region, used, bytes, acted, backs⟩ := serves
  have refilled := standsIn.same.refill x region.bytes
  obtain ⟨old, own⟩ := standsIn.same.machines x
  have machine : (paged.system.machine x).over region.bytes =
      (t.machine x).over region.bytes := by
    rw [own]
    rfl
  have applied := (taken _ refilled).apply x (function (t.machine x)) bytes
  have stepped := runs _ refilled
  rw [System.put_machine_self, machine, acted] at stepped
  rw [machine] at applied
  simp only [pagedStep, host, standsIn.same.uses event, uses, used, machine, stepped]
  refine ⟨_, by rw [applied.2], standsIn.moved applied.1 ?_ ?_⟩
  · rw [System.apply_machine_self, System.apply_machine_self]
    exact backs
  · rw [System.apply_machine_peer, others]

theorem SameBut.serve (same : SameBut s t) (x : Host) {recvData : ProcInfo}
    (rest : List ProcInfo) {addr : Buffer}
    (served : serverReceive setup recvData (s.machine x) =
      ((serverReceive setup recvData (t.machine x)).1.over addr,
        (serverReceive setup recvData (t.machine x)).2)) :
    SameBut (s.serve setup x recvData rest).1 (t.serve setup x recvData rest).1 ∧
      (s.serve setup x recvData rest).2 = (t.serve setup x recvData rest).2 := by
  have put := same.put x (serverReceive setup recvData (t.machine x)).1 addr
  unfold System.serve
  rw [served]
  simp only []
  split
  · refine ⟨⟨put.machines, ?_, put.replies⟩, rfl⟩
    simp only [same.inbox]
  · refine ⟨⟨put.machines, ?_, ?_⟩, rfl⟩
    · simp only [same.inbox]
    · simp only [System.put_replies, same.replies]

/-- Both systems after the receive loop has taken a struct. -/
theorem PagedSystem.StandsIn.serve {paged : PagedSystem} {base : Host → Nat}
    (standsIn : paged.StandsIn setup t) (mapped : setup.MappedAt (base x))
    {recvData : ProcInfo} {rest : List ProcInfo} (oldest : t.inbox x = recvData :: rest)
    (counted : recvData.Counted setup) :
    ∃ after, pagedStep setup base paged (.serve x) =
        some (after, (t.serve setup x recvData rest).2) ∧
      after.StandsIn setup (t.serve setup x recvData rest).1 := by
  obtain ⟨region, used, served, backs⟩ :=
    serverReceive_serves (standsIn.backs x) mapped counted
  have refilled := standsIn.same.refill x region.bytes
  obtain ⟨old, own⟩ := standsIn.same.machines x
  have machine : (paged.system.machine x).over region.bytes =
      (t.machine x).over region.bytes := by
    rw [own]
    rfl
  have uses : stepUses setup paged.system (.serve x) =
      serverReceiveUses setup recvData (t.machine x) := by
    simp only [stepUses, standsIn.same.inbox, oldest, own]
    rfl
  have first : (paged.system.put x ((t.machine x).over region.bytes)).inbox x =
      recvData :: rest := by
    rw [System.put_inbox, standsIn.same.inbox]
    exact oldest
  rw [machine] at refilled
  rw [← System.put_machine_self paged.system x ((t.machine x).over region.bytes)] at served
  obtain ⟨same, shown⟩ := refilled.serve x rest served
  simp only [pagedStep, Event.host, uses, used, machine, step, first]
  refine ⟨_, by rw [shown], standsIn.moved same ?_ ?_⟩
  · rw [System.serve_machine_self, System.serve_machine_self, System.put_machine_self]
    exact backs
  · rw [System.serve_machine_peer]

theorem menuWriteSelect_addr (page : Int) (machine : Machine) :
    (menuWriteSelect setup page machine).addr = machine.addr := by
  unfold menuWriteSelect
  simp only []
  split
  · rfl
  · rfl

theorem menuWrite_serves {base : Nat} {region : Region Buffer} {machine : Machine}
    (backs : Backs setup region machine.addr) (mapped : setup.MappedAt base) {page : Int}
    (offered : setup.Offered page) (counted : machine.tempData.pageCount = setup.pageCount)
    {message : List UInt8} (short : (strBytes message).length < setup.pageSize) :
    Serves setup base region
      (menuWriteMessageUses setup message (menuWriteSelect setup page machine))
      (menuWrite setup page message) machine := by
  have bounded := menuWriteSelect_bounded mapped.entries offered counted
  rw [← @menuWriteSelect_addr setup page machine] at backs
  have whole := menuWriteMessage_serves backs mapped bounded short
  simp only [Serves, menuWrite, menuWriteSelect_over]
  exact whole

/-- A step of the system with zeroed regions is one of the paged system. -/
theorem PagedSystem.StandsIn.step {paged : PagedSystem} {base : Host → Nat}
    (standsIn : paged.StandsIn setup t) (mapped : ∀ x, setup.MappedAt (base x))
    (fits : t.Fits (Machine.Tidy setup) (ProcInfo.Counted setup)) {event : Event}
    (offers : event.OffersPage setup) (short : event.ShortMessage setup) {next : System}
    {shown : List Output} (accepted : step setup t event = some (next, shown)) :
    ∃ after, pagedStep setup base paged event = some (after, shown) ∧
      after.StandsIn setup next := by
  have keep : ∀ s, SameBut s t → SameBut (id s) (id t) := fun _ same => same
  cases Performs.of_step accepted with
  | read x page ready =>
      have serves := menuRead_serves (standsIn.backs x) (mapped x) (offers page rfl)
        (fits.machines x).counted
      apply standsIn.menu serves (.read x page) rfl rfl id keep rfl
      intro s same
      simp only [LKP.Dsm.step, same.menu, if_pos ready, id]
  | write x page message ready =>
      have serves := menuWrite_serves (standsIn.backs x) (mapped x) (offers page rfl)
        (fits.machines x).counted short
      apply standsIn.menu serves (.write x page message) rfl rfl id keep rfl
      intro s same
      simp only [LKP.Dsm.step, same.menu, if_pos ready, id]
  | select x page ready =>
      have serves : Serves setup (base x) (paged.region x) ⟨(t.machine x).tempData, []⟩
          (fun machine => (menuWriteSelect setup page machine, .silent)) (t.machine x) := by
        apply Serves.blind (standsIn.backs x) rfl
        · rw [menuWriteSelect_over]
        · exact menuWriteSelect_addr page _
      apply standsIn.menu serves (.select x page) rfl rfl id keep rfl
      intro s same
      simp only [LKP.Dsm.step, same.menu, if_pos ready, id]
  | enter x message place =>
      have serves := menuWriteMessage_serves (standsIn.backs x) (mapped x)
        (fits.machines x).toBounded short
      apply standsIn.menu serves (.enter x message) rfl rfl id keep rfl
      intro s same
      simp only [LKP.Dsm.step, same.menu, if_pos place, id]
  | readAll x count place =>
      have lower := (fits.machines x).place
      rw [place] at lower
      have serves := menuReadAll_serves (standsIn.backs x) (mapped x) lower
        (fits.machines x).counted
      apply standsIn.menu serves (.iterate x) rfl (by simp only [stepUses, place]) id keep rfl
      intro s same
      simp only [LKP.Dsm.step, same.menu, place, id]
  | writeAll x count message place =>
      have lower := (fits.machines x).place
      rw [place] at lower
      have serves := menuWriteAll_serves (standsIn.backs x) (mapped x) lower
        (fits.machines x).counted ((fits.machines x).short count message place)
      apply standsIn.menu serves (.iterate x) rfl (by simp only [stepUses, place]) id keep rfl
      intro s same
      simp only [LKP.Dsm.step, same.menu, place, id]
  | receive x index next waiting available =>
      have serves : Serves setup (base x) (paged.region x) ⟨(t.machine x).tempData, []⟩
          (menuReceive setup index next ((t.replies x).take setup.pageSize)) (t.machine x) :=
        Serves.blind (standsIn.backs x) rfl rfl rfl
      apply standsIn.menu serves (.receive x) rfl rfl
        (fun s => s.unread x ((t.replies x).drop setup.pageSize))
        (fun s same => same.unread x _) rfl
      intro s same
      simp only [LKP.Dsm.step, same.menu, waiting, same.replies, if_neg available]
  | serve x recvData rest oldest =>
      have member : recvData ∈ t.inbox x := by
        rw [oldest]
        exact List.mem_cons_self
      exact standsIn.serve (mapped x) oldest (fits.structs x recvData member)

end Systems

/-! ### Runs -/

def Event.Fitting (setup : Setup) (event : Event) : Prop :=
  event.OffersPage setup ∧ event.ShortMessage setup

instance (setup : Setup) (event : Event) : Decidable (event.Fitting setup) :=
  match event with
  | .read _ page | .select _ page =>
      decidable_of_iff (setup.Offered page)
        ⟨fun offered => ⟨fun _ same => Option.some.inj same ▸ offered, trivial⟩,
          fun fitting => fitting.1 page rfl⟩
  | .write _ page message =>
      decidable_of_iff (setup.Offered page ∧ (strBytes message).length < setup.pageSize)
        ⟨fun both => ⟨fun _ same => Option.some.inj same ▸ both.1, both.2⟩,
          fun fitting => ⟨fitting.1 page rfl, fitting.2⟩⟩
  | .enter _ message =>
      decidable_of_iff ((strBytes message).length < setup.pageSize)
        ⟨fun short => ⟨fun _ none => (nomatch none), short⟩, fun fitting => fitting.2⟩
  | .iterate _ | .receive _ | .serve _ =>
      .isTrue ⟨fun _ none => (nomatch none), trivial⟩

/-- Freshly mapped regions: no page has come, what their bytes are means nothing, and the
page of each handler is fresh from `mmap`. -/
structure PagedSystem.Unfilled (setup : Setup) (paged : PagedSystem) (plain : System) :
    Prop where
  same : SameBut paged.system plain
  missing : ∀ x page, (paged.region x).present page = false
  blank : ∀ x, BlankPage setup (paged.region x).control

section Runs

variable {setup : Setup} {base : Host → Nat} {start paged : PagedSystem} {plain t : System}

theorem PagedSystem.Unfilled.standsIn (unfilled : start.Unfilled setup plain)
    (initial : Initial setup plain) : start.StandsIn setup plain := by
  refine ⟨unfilled.same, fun x => ⟨?_, ?_, unfilled.blank x⟩⟩
  · intro offset _inside present
    rw [unfilled.missing] at present
    cases present
  · intro offset _inside _missing
    exact initial.zero x offset

theorem Initial.tidy (initial : Initial setup plain) :
    plain.Fits (Machine.Tidy setup) (ProcInfo.Counted setup) where
  machines x := by
    refine ⟨⟨?_, initial.counted x⟩, fun page _inRange => initial.zero x _, ?_⟩
    · rw [initial.prompt x]
      trivial
    · intro count message place
      rw [initial.prompt x] at place
      cases place
  structs x data member := by
    rw [initial.inboxEmpty x] at member
    cases member

def InStep (setup : Setup) (paged : PagedSystem) (plain : System) : Prop :=
  paged.StandsIn setup plain ∧ plain.Fits (Machine.Tidy setup) (ProcInfo.Counted setup)

theorem InStep.step (inStep : InStep setup paged t) (mapped : ∀ x, setup.MappedAt (base x))
    {event : Event} (fitting : event.Fitting setup) {next : System} {shown : List Output}
    (accepted : step setup t event = some (next, shown)) :
    ∃ after, pagedStep setup base paged event = some (after, shown) ∧
      InStep setup after next := by
  obtain ⟨after, moved, standsIn⟩ :=
    inStep.1.step mapped inStep.2 fitting.1 fitting.2 accepted
  exact ⟨after, moved, standsIn,
    inStep.2.step (tidy_each (mapped event.host).entries) fitting accepted⟩

/-- A step of the paged system is one with zeroed regions. -/
theorem InStep.back (inStep : InStep setup paged t) (mapped : ∀ x, setup.MappedAt (base x))
    {event : Event} (fitting : event.Fitting setup) {after : PagedSystem}
    {shown : List Output} (accepted : pagedStep setup base paged event = some (after, shown)) :
    ∃ next, LKP.Dsm.step setup t event = some (next, shown) ∧ InStep setup after next := by
  have enabled : (LKP.Dsm.step setup t event).isSome = true := by
    unfold pagedStep at accepted
    simp only [] at accepted
    split at accepted
    · cases accepted
    · rename_i region _used
      split at accepted
      · cases accepted
      · rename_i middle moved stepped
        have same : (LKP.Dsm.step setup _ event).isSome = (LKP.Dsm.step setup t event).isSome :=
          (inStep.1.same.refill event.host region.bytes).accepts event
        rw [stepped] at same
        exact same.symm
  obtain ⟨⟨next, other⟩, moved⟩ := Option.isSome_iff_exists.mp enabled
  obtain ⟨again, paged, kept⟩ := inStep.step mapped fitting moved
  rw [paged] at accepted
  cases accepted
  exact ⟨next, moved, kept⟩

/-- Over the same events the system whose pages `fault_handler_thread` installs and the system
with zeroed regions do and show the same: no fault is refused, no access is left asleep, and
in the end the pages that have come hold what the zeroed region holds, which is zero where a
page has not come. -/
theorem paged_traces (mapped : ∀ x, setup.MappedAt (base x)) (initial : Initial setup plain)
    (unfilled : start.Unfilled setup plain) (events : List Event) (outputs : List Output) :
    (∀ final, Run (step setup) (fun _ event => event.Fitting setup) plain events outputs final →
      ∃ pagedFinal, Run (pagedStep setup base) (fun _ event => event.Fitting setup) start
        events outputs pagedFinal ∧ pagedFinal.StandsIn setup final) ∧
    ∀ pagedFinal, Run (pagedStep setup base) (fun _ event => event.Fitting setup) start
        events outputs pagedFinal →
      ∃ final, Run (step setup) (fun _ event => event.Fitting setup) plain events outputs final ∧
        pagedFinal.StandsIn setup final := by
  have begins : InStep setup start plain :=
    ⟨unfilled.standsIn initial, initial.tidy⟩
  have forward : ∀ (t : System) (paged : PagedSystem) (event : Event) (next : System)
      (shown : List Output), InStep setup paged t → event.Fitting setup →
      step setup t event = some (next, shown) → event.Fitting setup ∧
        ∃ after, pagedStep setup base paged event = some (after, shown) ∧
          InStep setup after next :=
    fun _ _ _ _ _ inStep fitting accepted => ⟨fitting, inStep.step mapped fitting accepted⟩
  have back : ∀ (paged : PagedSystem) (t : System) (event : Event) (after : PagedSystem)
      (shown : List Output), InStep setup paged t → event.Fitting setup →
      pagedStep setup base paged event = some (after, shown) → event.Fitting setup ∧
        ∃ next, step setup t event = some (next, shown) ∧ InStep setup after next :=
    fun _ _ _ _ _ inStep fitting accepted => ⟨fitting, inStep.back mapped fitting accepted⟩
  constructor
  · intro final run
    obtain ⟨pagedFinal, pagedRun, related⟩ :=
      run.simulated (fun plain paged => InStep setup paged plain) forward begins
    exact ⟨pagedFinal, pagedRun, related.1⟩
  · intro pagedFinal run
    obtain ⟨final, plainRun, related⟩ := run.simulated (InStep setup) back begins
    exact ⟨final, plainRun, related.1⟩

end Runs

private theorem twoPages_mappedAt : twoPages.MappedAt 65536 :=
  ⟨rfl, by decide, by decide, by decide⟩

def unfilledSystem : PagedSystem where
  system := freshSystem twoPages
  region := fun _ => ⟨fun _ => false, fun _ => 120, fun _ => 0⟩

private theorem unfilledSystem_unfilled :
    unfilledSystem.Unfilled twoPages (freshSystem twoPages) where
  same := ⟨fun _ => ⟨fun _ => 0, rfl⟩, rfl, rfl⟩
  missing _ _ := rfl
  blank _ _ _ _ := rfl

def writeAndFetch : List Event :=
  [.write .one 1 [104, 105], .serve .two, .read .two 1, .serve .one, .receive .two]

private theorem writeAndFetch_run :
    (execute (step twoPages) (fun _ event => decide (event.Fitting twoPages))
      (freshSystem twoPages) writeAndFetch).isSome = true := by
  decide

theorem paged_traces_writeAndFetch :
    ∃ pagedFinal, Run (pagedStep twoPages (fun _ => 65536))
        (fun _ event => event.Fitting twoPages) unfilledSystem writeAndFetch
        ((execute (step twoPages) (fun _ event => decide (event.Fitting twoPages))
          (freshSystem twoPages) writeAndFetch).get writeAndFetch_run).2 pagedFinal ∧
      pagedFinal.StandsIn twoPages
        ((execute (step twoPages) (fun _ event => decide (event.Fitting twoPages))
          (freshSystem twoPages) writeAndFetch).get writeAndFetch_run).1 :=
  (paged_traces (fun _ => twoPages_mappedAt) (freshSystem_initial twoPages)
    unfilledSystem_unfilled _ _).1 _
    ((Run.of_executes _ writeAndFetch_run).weaken
      (fun _ _ checked => of_decide_eq_true checked))

end LKP.Dsm
