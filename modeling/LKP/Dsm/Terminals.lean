import LKP.Dsm.Completion

/-
What the two terminals show in a run of overlapping commands.

The commands are carried out once more on a single memory, whole and in the order in which
they were entered, without structs, replies and loops.  The memory keeps for each page what
each machine has there, and for each machine its `recv_message`.
-/

set_option autoImplicit false

namespace LKP.Dsm

open TransitionRun CBuffer TwoCacheMsi

/-! ### One memory -/

structure Sheet where
  line : Line Host
  text : Host → List UInt8

/-- What a machine that does not hold the page is sent; `no_data` is one blank. -/
def Sheet.reply (sheet : Sheet) : List UInt8 :=
  match sheet.line with
  | .owned owner => sheet.text owner
  | _ => [32]

/-- The reply is not kept: the reader's own page is zeroed. -/
def Sheet.fetched (sheet : Sheet) (x : Host) : Sheet where
  line := .shared
  text := Function.update sheet.text x []

/-- No NUL is copied: what a longer string left behind stays. -/
def Sheet.written (sheet : Sheet) (x : Host) (message : List UInt8) : Sheet where
  line := .owned x
  text := Function.update sheet.text x (message ++ (sheet.text x).drop message.length)

structure Memory where
  sheet : Int → Sheet
  /-- The `recv_message` of each machine. -/
  heard : Host → Buffer

def Memory.blank (heard : Host → Buffer) : Memory where
  sheet _ := ⟨.unowned, fun _ => []⟩
  heard := heard

def Memory.fetch (memory : Memory) (x : Host) (page : Int) : Memory where
  sheet := Function.update memory.sheet page ((memory.sheet page).fetched x)
  heard := Function.update memory.heard x (memcpy (memory.heard x) 0 (memory.sheet page).reply)

def Memory.write (memory : Memory) (x : Host) (page : Int) (message : List UInt8) : Memory where
  sheet := Function.update memory.sheet page ((memory.sheet page).written x message)
  heard := memory.heard

def Memory.after (memory : Memory) : Event → Memory
  | .read x page =>
      if (memory.sheet page).line.mode x = .invalid then memory.fetch x page else memory
  | .write x page message => memory.write x page message
  | _ => memory

def Memory.shows (setup : Setup) (memory : Memory) : Event → List (Host × List UInt8)
  | .read x page =>
      if (memory.sheet page).line.mode x = .invalid then
        [(x, cString ((memory.fetch x page).heard x) 0 setup.pageSize)]
      else [(x, (memory.sheet page).text x)]
  | _ => []

def memoryAfter (start : Memory) (events : List Event) : Memory :=
  events.foldl Memory.after start

def showings (setup : Setup) : Memory → List Event → List (Host × List UInt8)
  | _, [] => []
  | memory, event :: rest => memory.shows setup event ++ showings setup (memory.after event) rest

def shownTo (x : Host) (lines : List (Host × List UInt8)) : List (List UInt8) :=
  lines.filterMap (fun line => if line.1 = x then some line.2 else none)

section Memories

variable {setup : Setup} (memory : Memory) (x : Host) (message : List UInt8)

@[simp] theorem fetch_sheet_self (page : Int) :
    (memory.fetch x page).sheet page = (memory.sheet page).fetched x := Function.update_self ..

@[simp] theorem write_sheet_self (page : Int) :
    (memory.write x page message).sheet page = (memory.sheet page).written x message :=
  Function.update_self ..

theorem fetch_sheet_other {page index : Int} (other : page ≠ index) :
    (memory.fetch x index).sheet page = memory.sheet page := Function.update_of_ne other ..

theorem write_sheet_other {page index : Int} (other : page ≠ index) :
    (memory.write x index message).sheet page = memory.sheet page :=
  Function.update_of_ne other ..

@[simp] theorem fetch_heard_self (page : Int) :
    (memory.fetch x page).heard x = memcpy (memory.heard x) 0 (memory.sheet page).reply :=
  Function.update_self ..

@[simp] theorem fetch_heard_peer (page : Int) :
    (memory.fetch x page).heard x.peer = memory.heard x.peer :=
  Function.update_of_ne (Host.peer_ne x) ..

theorem memoryAfter_append (start : Memory) (events : List Event) (event : Event) :
    memoryAfter start (events ++ [event]) = (memoryAfter start events).after event := by
  simp only [memoryAfter, List.foldl_append, List.foldl_cons, List.foldl_nil]

theorem showings_append (start : Memory) (events : List Event) (event : Event) :
    showings setup start (events ++ [event]) =
      showings setup start events ++ (memoryAfter start events).shows setup event := by
  induction events generalizing start with
  | nil => exact List.append_nil _
  | cons first rest ih =>
      rw [List.cons_append, showings, showings, ih, List.append_assoc]
      rfl

theorem shownTo_append (x : Host) (earlier later : List (Host × List UInt8)) :
    shownTo x (earlier ++ later) = shownTo x earlier ++ shownTo x later :=
  List.filterMap_append ..

theorem shownTo_self (x : Host) (text : List UInt8) : shownTo x [(x, text)] = [text] := by
  simp [shownTo]

theorem shownTo_other {x z : Host} (other : z ≠ x) (text : List UInt8) :
    shownTo x [(z, text)] = [] := by
  simp [shownTo, other]

/-- The lines of the memory are those of textbook MSI. -/
theorem memoryAfter_line (heard : Host → Buffer) {events : List Event}
    (single : ∀ event ∈ events, event.Single setup) (page : Int) :
    ((memoryAfter (.blank heard) events).sheet page).line =
      tableAfter (operations setup events) page := by
  induction events using List.reverseRecOn with
  | nil => rfl
  | append_singleton events event ih =>
      have earlier := ih (fun past member => single past (List.mem_append_left _ member))
      have last := single event (List.mem_append_right _ List.mem_cons_self)
      rw [memoryAfter_append]
      cases event with
      | read x index =>
          rw [operations_read x last, tableAfter_append, Memory.after]
          by_cases same : page = index
          · subst same
            rw [apply_same, after_load, ← earlier]
            split
            · rw [fetch_sheet_self]
              rfl
            · rfl
          · rw [apply_other _ _ same, ← earlier]
            split
            · rw [fetch_sheet_other _ _ same]
            · rfl
      | write x index message =>
          rw [operations_write x last, tableAfter_append, Memory.after]
          by_cases same : page = index
          · subst same
            rw [apply_same, after_store, write_sheet_self]
            rfl
          · rw [apply_other _ _ same, write_sheet_other _ _ _ same, ← earlier]
      | receive x =>
          rw [operations_append]
          exact earlier.trans (congrFun (congrArg tableAfter (List.append_nil _).symm) page)
      | serve x =>
          rw [operations_append]
          exact earlier.trans (congrFun (congrArg tableAfter (List.append_nil _).symm) page)
      | select x index => exact last.elim
      | enter x message => exact last.elim
      | iterate x => exact last.elim

end Memories

/-! ### Pages as strings -/

structure Machine.PageIs (setup : Setup) (machine : Machine) (page : Int)
    (text : List UInt8) : Prop where
  nulFree : (0 : UInt8) ∉ text
  short : text.length < setup.pageSize
  bytes : ∀ index : Nat, index < setup.pageSize →
    machine.addr (page * setup.pageSize + index) = text.getD index 0

section Pages

variable {setup : Setup} {machine : Machine} {page index : Int} {text message : List UInt8}

theorem Machine.PageIs.pageText (is : machine.PageIs setup page text)
    (inRange : setup.InRange page) : machine.pageText setup page = text := by
  have room := Setup.page_le_rest inRange
  have short := is.short
  have held : Holds machine.addr (page * setup.pageSize) text := by
    intro index within
    rw [is.bytes index (by omega)]
    exact (List.getElem_eq_getD 0).symm
  apply (cString_eq_iff _ _ _ _ held is.nulFree (by omega)).mpr
  rw [is.bytes _ short]
  exact List.getD_eq_default _ _ (Nat.le_refl _)

theorem Machine.PageIs.of_agree {after : Machine} (is : machine.PageIs setup page text)
    (agree : ∀ offset : Int, page * setup.pageSize ≤ offset →
      offset < page * setup.pageSize + setup.pageSize →
      after.addr offset = machine.addr offset) : after.PageIs setup page text where
  nulFree := is.nulFree
  short := is.short
  bytes index within := by
    rw [agree _ (by omega) (by omega)]
    exact is.bytes index within

theorem Machine.PageIs.written (is : machine.PageIs setup page text)
    (line : setup.Text message) (next : Menu) :
    (machine.afterWrite setup page message next).PageIs setup page
      (message ++ text.drop message.length) where
  nulFree := by
    intro member
    rcases List.mem_append.mp member with new | old
    · exact line.2.1 new
    · exact is.nulFree (List.mem_of_mem_drop old)
  short := by
    have short := is.short
    have fits := line.2.2
    rw [List.length_append, List.length_drop]
    omega
  bytes index within := by
    rw [afterWrite_addr, strBytes_eq_self line.2.1]
    by_cases new : index < message.length
    · rw [memcpy_holds _ _ _ index new, List.getD_append _ _ _ _ new]
      exact List.getElem_eq_getD 0
    · have behind := Nat.le_of_not_lt new
      rw [memcpy_outside _ _ _ (.inr (by omega)), is.bytes index within,
        List.getD_append_right _ _ _ _ behind, List.getD_eq_getElem?_getD,
        List.getD_eq_getElem?_getD, List.getElem?_drop, Nat.add_sub_cancel' behind]

theorem Machine.PageIs.zeroed (setup : Setup) (machine : Machine) (page : Int) (next : Menu) :
    (machine.afterMiss setup page next).PageIs setup page [] where
  nulFree := List.not_mem_nil
  short := setup.pageSize_pos
  bytes index within := by
    rw [afterMiss_addr]
    exact memset_inside _ _ _ _ (by omega) (by omega)

end Pages

/-! ### Replies under way -/

def Promises (setup : Setup) (reply : List UInt8) : Machine → List ProcInfo → Prop
  | _, [] => True
  | machine, data :: rest =>
      (data.asks = true →
        serverReply (machine.listMSI data.pageNum) data (machine.flushText setup data) =
          some reply) ∧
      Promises setup reply (machine.afterServe data) rest

section Promised

variable {setup : Setup} {reply : List UInt8} {machine other : Machine}
variable {structs : List ProcInfo} {data : ProcInfo}

theorem Promises.of_same (promises : Promises setup reply machine structs)
    (entries : other.listMSI = machine.listMSI) (bytes : other.addr = machine.addr) :
    Promises setup reply other structs := by
  induction structs generalizing machine other with
  | nil => trivial
  | cons data rest ih =>
      refine ⟨?_, ih promises.2 ?_ bytes⟩
      · rw [Machine.flushText, entries, bytes]
        exact promises.1
      · rw [afterServe_listMSI, afterServe_listMSI, entries]

theorem Promises.of_silent (machine : Machine) (silent : structs.countP ProcInfo.asks = 0) :
    Promises setup reply machine structs := by
  induction structs generalizing machine with
  | nil => trivial
  | cons data rest ih =>
      have none := List.countP_eq_zero.mp silent
      refine ⟨fun asks => absurd asks (none data List.mem_cons_self), ih _ ?_⟩
      exact List.countP_eq_zero.mpr
        (fun later member => none later (List.mem_cons_of_mem data member))

theorem Promises.post (promises : Promises setup reply machine structs)
    (last : data.asks = true →
      serverReply ((machine.received structs).listMSI data.pageNum) data
        (machine.flushText setup data) = some reply) :
    Promises setup reply machine (structs ++ [data]) := by
  induction structs generalizing machine with
  | nil => exact ⟨last, trivial⟩
  | cons first rest ih => exact ⟨promises.1, ih promises.2 last⟩

end Promised

/-! ### One terminal -/

inductive Faces (setup : Setup) (memory : Memory) (x : Host) (told seen : List (List UInt8))
    (s : System) : Prop
  | prompt : (s.machine x).menu = .prompt → (s.machine x).recvMessage = memory.heard x →
      seen = told → Faces setup memory x told seen s
  | waiting (page : Int) (reply : List UInt8) : (s.machine x).menu = .awaitReply page →
      reply.length ≤ setup.pageSize →
      memory.heard x = memcpy (s.machine x).recvMessage 0 reply →
      seen ++ [cString (memory.heard x) 0 setup.pageSize] = told →
      (s.replies x ≠ [] → s.replies x = reply) →
      Promises setup reply (s.machine x.peer) (s.inbox x.peer) →
      Faces setup memory x told seen s

section Facing

variable {setup : Setup} {memory next : Memory} {x : Host} {told seen : List (List UInt8)}
variable {s after : System}

/-- What a machine does but at its own terminal. -/
theorem Faces.of_same (faces : Faces setup memory x told seen s)
    (menu : (after.machine x).menu = (s.machine x).menu)
    (buffer : (after.machine x).recvMessage = (s.machine x).recvMessage)
    (replies : after.replies x = s.replies x) (heard : next.heard x = memory.heard x)
    (promises : ∀ reply, Promises setup reply (s.machine x.peer) (s.inbox x.peer) →
      Promises setup reply (after.machine x.peer) (after.inbox x.peer)) :
    Faces setup next x told seen after := by
  cases faces with
  | prompt ready kept same =>
      refine .prompt (menu.trans ready) ?_ same
      rw [buffer, heard]
      exact kept
  | waiting page reply waits short kept same whole promised =>
      refine .waiting page reply (menu.trans waits) short ?_ ?_ ?_ (promises reply promised)
      · rw [buffer, heard]
        exact kept
      · rw [heard]
        exact same
      · rw [replies]
        exact whole

theorem Faces.ready (faces : Faces setup memory x told seen s)
    (ready : (s.machine x).menu = .prompt) :
    (s.machine x).recvMessage = memory.heard x ∧ seen = told := by
  cases faces with
  | prompt _ready buffer same => exact ⟨buffer, same⟩
  | waiting page reply waits _short _buffer _same _whole _promised =>
      rw [ready] at waits
      cases waits

/-- The reply of a miss is promised when the request is sent. -/
theorem Faces.asks (faces : Faces setup memory x told seen s) {page : Int}
    (inRange : setup.InRange page) (ready : (s.machine x).menu = .prompt)
    {table : Table Host Int} (agrees : Agrees setup table s.drained)
    (line : (memory.sheet page).line = table page)
    (missing : (memory.sheet page).line.mode x = .invalid)
    (silent : (s.inbox x.peer).countP ProcInfo.asks = 0)
    (is : (s.machine x.peer).PageIs setup page ((memory.sheet page).text x.peer))
    (unread : s.replies x = []) :
    Faces setup (memory.fetch x page) x
      (told ++ [cString ((memory.fetch x page).heard x) 0 setup.pageSize]) seen
      ((s.put x ((s.machine x).afterMiss setup page (.awaitReply page))).post x
        (readRequest setup page (s.machine x).tempData)) := by
  obtain ⟨buffer, same⟩ := faces.ready ready
  have entry := agrees.entries x.peer page inRange
  rw [line] at missing
  have own : ((s.put x ((s.machine x).afterMiss setup page (.awaitReply page))).post x
      (readRequest setup page (s.machine x).tempData)).machine x =
      (s.machine x).afterMiss setup page (.awaitReply page) := by
    rw [System.post_machine, System.put_machine_self]
  -- the peer owns the page, or nobody does
  have answered : (memory.sheet page).reply.length ≤ setup.pageSize ∧
      serverReply ((s.drained x.peer).listMSI page) (readRequest setup page
          (s.machine x).tempData)
        ((s.machine x.peer).flushText setup (readRequest setup page (s.machine x).tempData)) =
        some (memory.sheet page).reply := by
    have on : (readRequest setup page (s.machine x).tempData).readSignal page = 1 :=
      readRequest_readSignal ..
    cases known : table page with
    | unowned =>
        rw [entry, known, Sheet.reply, line, known]
        refine ⟨setup.pageSize_pos, ?_⟩
        exact (serverReply_invalid _ _).trans (if_pos on)
    | owned owner =>
        rw [known] at missing
        have peer : owner = x.peer := by
          rcases Host.eq_or_eq_peer x owner with rfl | other
          · rw [mode_owned_self] at missing
            cases missing
          · exact other
        subst peer
        rw [entry, known, mode_owned_self, Sheet.reply, line, known]
        refine ⟨Nat.le_of_lt is.short, ?_⟩
        refine ((serverReply_modified _ _).trans (if_pos on)).trans ?_
        exact congrArg some (is.pageText inRange)
    | shared =>
        rw [known] at missing
        cases missing
  refine .waiting page (memory.sheet page).reply ?_ answered.1 ?_ ?_ ?_ ?_
  · rw [own, afterMiss_menu]
  · rw [own, fetch_heard_self, ← buffer]
    rfl
  · rw [same]
  · intro available
    exact absurd unread available
  · rw [System.post_machine, System.put_machine_peer, System.post_inbox_peer, System.put_inbox]
    exact (Promises.of_silent _ silent).post (fun _asks => answered.2)

/-- The reader of the promised reply. -/
theorem Faces.receives (faces : Faces setup memory x told seen s) {index : Int} {next : Menu}
    (waiting : (s.machine x).menu.awaiting = some (index, next)) (available : s.replies x ≠ [])
    (own : after.machine x =
      (menuReceive setup index next ((s.replies x).take setup.pageSize) (s.machine x)).1) :
    Faces setup memory x told (seen ++ [cString (memory.heard x) 0 setup.pageSize]) after ∧
      menuReceive setup index next ((s.replies x).take setup.pageSize) (s.machine x) =
        (after.machine x, .display (cString (memory.heard x) 0 setup.pageSize)) := by
  cases faces with
  | prompt ready _buffer _same =>
      rw [ready] at waiting
      cases waiting
  | waiting page reply waits short buffer same whole _promised =>
      rw [waits] at waiting
      cases waiting
      have received : (s.replies x).take setup.pageSize = reply := by
        rw [whole available]
        exact List.take_of_length_le short
      rw [received] at own ⊢
      refine ⟨.prompt ?_ ?_ same, ?_⟩
      · rw [own, menuReceive_menu]
      · rw [own, buffer]
        rfl
      · rw [own, buffer]
        rfl

/-- The other machine serves one of the structs. -/
theorem Faces.served (faces : Faces setup memory x told seen s) {data : ProcInfo}
    {rest : List ProcInfo} (oldest : s.inbox x.peer = data :: rest)
    (unread : data.asks = true → s.replies x = []) :
    Faces setup memory x told seen (s.serve setup x.peer data rest).1 := by
  have own : (s.serve setup x.peer data rest).1.machine x = s.machine x := by
    have unchanged := System.serve_machine_peer s x.peer data setup rest
    rw [Host.peer_peer] at unchanged
    exact unchanged
  have replies : (s.serve setup x.peer data rest).1.replies x =
      s.replies x ++ (s.answer setup x.peer data).getD [] := by
    have sent := System.serve_replies_peer s x.peer data setup rest
    rw [Host.peer_peer] at sent
    exact sent
  cases faces with
  | prompt ready buffer same =>
      refine .prompt ?_ ?_ same
      · rw [own]
        exact ready
      · rw [own]
        exact buffer
  | waiting page reply waits short buffer same whole promised =>
      rw [oldest] at promised
      refine .waiting page reply ?_ short ?_ same ?_ ?_
      · rw [own]
        exact waits
      · rw [own]
        exact buffer
      · rw [replies]
        cases asks : data.asks with
        | false =>
            rw [System.answer_of_silent asks, Option.getD_none, List.append_nil]
            exact whole
        | true =>
            have answer : s.answer setup x.peer data = some reply := promised.1 asks
            rw [unread asks, answer]
            exact fun _ => rfl
      · rw [System.serve_machine_self, System.serve_inbox_self]
        exact promised.2

end Facing

/-! ### Both machines -/

structure Mirrored (setup : Setup) (memory : Memory) (told seen : List (Host × List UInt8))
    (s : System) : Prop where
  pages : ∀ x page, setup.InRange page →
    (s.machine x).PageIs setup page ((memory.sheet page).text x)
  faces : ∀ x, Faces setup memory x (shownTo x told) (shownTo x seen) s

section Steps

variable {setup : Setup} {memory next : Memory} {told seen : List (Host × List UInt8)}
variable {s after : System} {x : Host} {page : Int} {table : Table Host Int}

/-- A menu that is at its prompt again. -/
theorem Mirrored.prompted (mirrored : Mirrored setup memory told seen s)
    (ready : (s.machine x).menu = .prompt) (empty : after.inbox x = [])
    (menu : (after.machine x).menu = .prompt)
    (buffer : (after.machine x).recvMessage = (s.machine x).recvMessage)
    (peer : after.machine x.peer = s.machine x.peer)
    (replies : after.replies x.peer = s.replies x.peer) (heard : next.heard = memory.heard)
    {line : List (Host × List UInt8)} (own : ∀ z, z ≠ x → shownTo z line = []) :
    ∀ z, Faces setup next z (shownTo z (told ++ line)) (shownTo z (seen ++ line)) after := by
  intro z
  rw [shownTo_append, shownTo_append]
  rcases Host.eq_or_eq_peer x z with rfl | rfl
  · obtain ⟨same, all⟩ := (mirrored.faces z).ready ready
    refine .prompt menu ?_ (by rw [all])
    rw [buffer, same, heard]
  · rw [own _ (Host.peer_ne x), List.append_nil, List.append_nil]
    refine (mirrored.faces x.peer).of_same (by rw [peer]) (by rw [peer]) replies
      (by rw [heard]) ?_
    intro reply _promised
    rw [Host.peer_peer, empty]
    trivial

theorem Mirrored.hit (mirrored : Mirrored setup memory told seen s)
    (ready : (s.machine x).menu = .prompt) (empty : s.inbox x = [])
    (inRange : setup.InRange page) :
    Mirrored setup memory (told ++ [(x, (memory.sheet page).text x)])
      (seen ++ [(x, (s.machine x).pageText setup page)])
      (s.put x ((s.machine x).afterHit setup page .prompt)) where
  pages z index named := by
    rcases Host.eq_or_eq_peer x z with rfl | rfl
    · rw [System.put_machine_self]
      exact (mirrored.pages z index named).of_agree (fun _ _ _ => rfl)
    · rw [System.put_machine_peer]
      exact mirrored.pages _ index named
  faces := by
    have nothing : (s.put x ((s.machine x).afterHit setup page .prompt)).inbox x = [] := empty
    rw [(mirrored.pages x page inRange).pageText inRange]
    refine mirrored.prompted ready nothing ?_ ?_ (System.put_machine_peer ..) rfl rfl ?_
    · rw [System.put_machine_self, afterHit_menu]
    · rw [System.put_machine_self]
      rfl
    · intro z other
      exact shownTo_other (Ne.symm other) _

theorem Mirrored.miss (mirrored : Mirrored setup memory told seen s)
    (ready : (s.machine x).menu = .prompt) (empty : s.inbox x = [])
    (inRange : setup.InRange page) (agrees : Agrees setup table s.drained)
    (line : (memory.sheet page).line = table page)
    (missing : (memory.sheet page).line.mode x = .invalid)
    (owed : Owed (Readable setup) none (s.inbox x.peer) (s.replies x)) :
    Mirrored setup (memory.fetch x page)
      (told ++ [(x, cString ((memory.fetch x page).heard x) 0 setup.pageSize)]) seen
      ((s.put x ((s.machine x).afterMiss setup page (.awaitReply page))).post x
        (readRequest setup page (s.machine x).tempData)) where
  pages z index named := by
    rw [System.post_machine]
    rcases Host.eq_or_eq_peer x z with rfl | rfl
    · rw [System.put_machine_self]
      by_cases same : index = page
      · subst same
        have blank : ((memory.fetch z index).sheet index).text z = [] := by
          rw [fetch_sheet_self]
          exact Function.update_self ..
        rw [blank]
        exact Machine.PageIs.zeroed setup _ index _
      · rw [fetch_sheet_other _ _ same]
        exact (mirrored.pages z index named).of_agree
          (fun _ lower upper => afterMiss_addr_other setup same _ _ lower upper)
    · rw [System.put_machine_peer]
      have kept : ((memory.fetch x page).sheet index).text x.peer =
          (memory.sheet index).text x.peer := by
        by_cases same : index = page
        · subst same
          rw [fetch_sheet_self]
          exact Function.update_of_ne (Host.peer_ne x) ..
        · rw [fetch_sheet_other _ _ same]
      rw [kept]
      exact mirrored.pages _ index named
  faces z := by
    rw [shownTo_append]
    rcases Host.eq_or_eq_peer x z with rfl | rfl
    · rw [shownTo_self]
      exact (mirrored.faces z).asks inRange ready agrees line missing owed.idle_inv.1
        (mirrored.pages _ page inRange) owed.idle_inv.2
    · rw [shownTo_other (Host.ne_peer x), List.append_nil]
      refine (mirrored.faces x.peer).of_same ?_ ?_ rfl (fetch_heard_peer ..) ?_
      · rw [System.post_machine, System.put_machine_peer]
      · rw [System.post_machine, System.put_machine_peer]
      · intro reply _promised
        rw [Host.peer_peer, System.post_inbox_self, System.put_inbox, empty]
        trivial

theorem Mirrored.write (mirrored : Mirrored setup memory told seen s)
    (ready : (s.machine x).menu = .prompt) (empty : s.inbox x = [])
    {message : List UInt8} (text : setup.Text message) (data : ProcInfo) :
    Mirrored setup (memory.write x page message) told seen
      ((s.put x ((s.machine x).afterWrite setup page message .prompt)).post x data) where
  pages z index named := by
    have bytes := strBytes_eq_self text.2.1
    have fits := text.2.2
    rw [System.post_machine]
    rcases Host.eq_or_eq_peer x z with rfl | rfl
    · rw [System.put_machine_self]
      by_cases same : index = page
      · subst same
        have laid : ((memory.write z index message).sheet index).text z =
            message ++ ((memory.sheet index).text z).drop message.length := by
          rw [write_sheet_self]
          exact Function.update_self ..
        rw [laid]
        exact (mirrored.pages z index named).written text _
      · rw [write_sheet_other _ _ _ same]
        exact (mirrored.pages z index named).of_agree
          (fun _ lower upper => afterWrite_addr_other setup same message
            (by rw [bytes]; omega) _ _ lower upper)
    · rw [System.put_machine_peer]
      have kept : ((memory.write x page message).sheet index).text x.peer =
          (memory.sheet index).text x.peer := by
        by_cases same : index = page
        · subst same
          rw [write_sheet_self]
          exact Function.update_of_ne (Host.peer_ne x) ..
        · rw [write_sheet_other _ _ _ same]
      rw [kept]
      exact mirrored.pages _ index named
  faces := by
    have silent : ∀ z, z ≠ x → shownTo z [] = [] := fun _ _ => rfl
    have faces := @Mirrored.prompted setup memory (memory.write x page message) told seen s
      ((s.put x ((s.machine x).afterWrite setup page message .prompt)).post x data) x mirrored
      ready (by rw [System.post_inbox_self]; exact empty)
      (by rw [System.post_machine, System.put_machine_self, afterWrite_menu])
      (by rw [System.post_machine, System.put_machine_self]; rfl)
      (by rw [System.post_machine, System.put_machine_peer]) rfl rfl [] silent
    simp only [List.append_nil] at faces
    exact faces

theorem Mirrored.receive (mirrored : Mirrored setup memory told seen s) {index : Int}
    {place : Menu} (waiting : (s.machine x).menu.awaiting = some (index, place))
    (available : s.replies x ≠ []) (left : List UInt8) :
    Mirrored setup memory told
      (seen ++ displayed ((s.unread x left).apply x
        (menuReceive setup index place ((s.replies x).take setup.pageSize) (s.machine x))).2)
      ((s.unread x left).apply x
        (menuReceive setup index place ((s.replies x).take setup.pageSize) (s.machine x))).1 := by
  have own : ((s.unread x left).put x (menuReceive setup index place
      ((s.replies x).take setup.pageSize) (s.machine x)).1).machine x =
      (menuReceive setup index place ((s.replies x).take setup.pageSize) (s.machine x)).1 :=
    System.put_machine_self ..
  obtain ⟨faces, displays⟩ := (mirrored.faces x).receives waiting available own
  have shown : displayed ((s.unread x left).apply x (menuReceive setup index place
      ((s.replies x).take setup.pageSize) (s.machine x))).2 =
      [(x, cString (memory.heard x) 0 setup.pageSize)] := by
    rw [displays]
    rfl
  rw [shown]
  constructor
  · intro z page inRange
    rcases Host.eq_or_eq_peer x z with rfl | rfl
    · rw [System.apply_machine_self]
      exact (mirrored.pages z page inRange).of_agree (fun _ _ _ => rfl)
    · rw [System.apply_machine_peer, System.unread_machine]
      exact mirrored.pages _ page inRange
  · intro z
    rw [shownTo_append]
    rcases Host.eq_or_eq_peer x z with rfl | rfl
    · rw [shownTo_self]
      exact faces
    · rw [shownTo_other (Host.ne_peer x), List.append_nil]
      refine (mirrored.faces x.peer).of_same ?_ ?_ ?_ rfl ?_
      · rw [System.apply_machine_peer, System.unread_machine]
      · rw [System.apply_machine_peer, System.unread_machine]
      · rw [System.apply_replies, System.unread_replies_peer]
      · intro reply promised
        rw [Host.peer_peer] at promised ⊢
        rw [System.apply_machine_self]
        exact promised.of_same rfl rfl

theorem displayed_serve (s : System) (x : Host) (data : ProcInfo) (rest : List ProcInfo) :
    displayed (s.serve setup x data rest).2 = [] := by
  rw [System.serve_outputs]
  cases s.answer setup x data with
  | none => rfl
  | some text => rfl

theorem Mirrored.serve (mirrored : Mirrored setup memory told seen s) {data : ProcInfo}
    {rest : List ProcInfo} (oldest : s.inbox x = data :: rest)
    (unread : data.asks = true → s.replies x.peer = []) :
    Mirrored setup memory told seen (s.serve setup x data rest).1 where
  pages z page inRange := by
    rcases Host.eq_or_eq_peer x z with rfl | rfl
    · rw [System.serve_machine_self]
      exact (mirrored.pages z page inRange).of_agree (fun _ _ _ => rfl)
    · rw [System.serve_machine_peer]
      exact mirrored.pages _ page inRange
  faces z := by
    rcases Host.eq_or_eq_peer x z with rfl | rfl
    · refine (mirrored.faces z).of_same ?_ ?_ (System.serve_replies_self ..) rfl ?_
      · rw [System.serve_machine_self, afterServe_menu]
      · rw [System.serve_machine_self]
        rfl
      · intro reply promised
        rw [System.serve_machine_peer, System.serve_inbox_peer]
        exact promised
    · have served := @Faces.served setup memory x.peer _ _ s (mirrored.faces x.peer) data rest
        (by rw [Host.peer_peer]; exact oldest) unread
      rw [Host.peer_peer] at served
      exact served

end Steps

/-! ### Runs -/

def startMemory (start : System) : Memory := .blank (fun x => (start.machine x).recvMessage)

section Runs

variable {setup : Setup} {start s after : System} {events : List Event}
variable {outputs : List Output}

theorem Initial.mirrored (initial : Initial setup start) :
    Mirrored setup (startMemory start) [] [] start where
  pages x page _inRange := by
    refine ⟨List.not_mem_nil, setup.pageSize_pos, ?_⟩
    intro index _within
    rw [initial.zero]
    rfl
  faces x := .prompt (initial.prompt x) rfl rfl

theorem Mirrored.step {memory : Memory} {told seen : List (Host × List UInt8)} {event : Event}
    {shown : List Output} (mirrored : Mirrored setup memory told seen s)
    (follows : Follows setup events outputs s)
    (line : ∀ page, (memory.sheet page).line = tableAfter (operations setup events) page)
    (typed : CaughtUpText setup s event) (accepted : step setup s event = some (after, shown)) :
    Mirrored setup (memory.after event) (told ++ memory.shows setup event)
      (seen ++ displayed shown) after := by
  have agrees := follows.agrees
  cases Performs.of_step accepted with
  | read x page ready =>
      obtain ⟨inRange, ⟨_, empty⟩, _⟩ := typed
      have absent := agrees.absent_iff (x := x) inRange
      have entry := agrees.entries x page inRange
      rw [drained_of_empty empty] at absent entry
      rw [← line page] at absent entry
      by_cases missing : (memory.sheet page).line.mode x = .invalid
      · have owed := follows.flowing.owed x
        rw [ready] at owed
        have steps := @step_miss setup s x page ready inRange (absent.mpr missing)
        obtain ⟨reached, lines⟩ := Prod.mk.inj (Option.some.inj (accepted.symm.trans steps))
        rw [reached, lines]
        simp only [Memory.after, Memory.shows, if_pos missing]
        have silent : displayed [.sent x (readRequest setup page (s.machine x).tempData)] = [] :=
          rfl
        rw [silent, List.append_nil]
        exact mirrored.miss ready empty inRange agrees (line page) missing owed
      · have held : (s.machine x).listMSI page ≠ .invalid := by
          intro invalid
          exact missing (absent.mp (by rw [invalid]; rfl))
        have oneHot := follows.flowing.table x page inRange
        have steps := @step_held setup s x page ready inRange oneHot held
        obtain ⟨reached, lines⟩ := Prod.mk.inj (Option.some.inj (accepted.symm.trans steps))
        rw [reached, lines]
        simp only [Memory.after, Memory.shows, if_neg missing]
        exact mirrored.hit ready empty inRange
  | write x page message ready =>
      obtain ⟨inRange, ⟨_, empty⟩, text⟩ := typed
      have steps := @step_write setup s x page ready inRange message
      obtain ⟨reached, lines⟩ := Prod.mk.inj (Option.some.inj (accepted.symm.trans steps))
      rw [reached, lines]
      have silent : displayed [.sent x (writeRequest setup ((s.machine x).listMSI page) page
          (s.machine x).tempData)] = [] := rfl
      rw [silent, List.append_nil]
      simp only [Memory.after, Memory.shows, List.append_nil]
      exact mirrored.write ready empty text _
  | receive x index place waiting available =>
      simp only [Memory.after, Memory.shows, List.append_nil]
      exact mirrored.receive waiting available _
  | serve x data rest oldest =>
      simp only [Memory.after, Memory.shows, List.append_nil, displayed_serve]
      apply mirrored.serve oldest
      intro asks
      have owed := follows.flowing.owed x.peer
      rw [Host.peer_peer, oldest] at owed
      exact (owed.request_inv List.mem_cons_self asks).2
  | select x page _ready => exact typed.1.elim
  | enter x message _place => exact typed.1.elim
  | readAll x count _place => exact typed.1.elim
  | writeAll x count message _place => exact typed.1.elim

theorem terminals_mirrored (initial : Initial setup start)
    (run : Run (LKP.Dsm.step setup) (CaughtUpText setup) start events outputs s) :
    Follows setup events outputs s ∧
      Mirrored setup (memoryAfter (startMemory start) events)
        (showings setup (startMemory start) events) (displayed outputs) s := by
  refine run.history_invariant
    (fun past shownBefore s => Follows setup past shownBefore s ∧
      Mirrored setup (memoryAfter (startMemory start) past)
        (showings setup (startMemory start) past) (displayed shownBefore) s)
    ⟨initial.follows, initial.mirrored⟩ ?_
  rintro past shownBefore before event after shown ⟨follows, mirrored⟩ typed accepted
  refine ⟨follows.extend typed accepted, ?_⟩
  rw [memoryAfter_append, showings_append, displayed_append]
  exact mirrored.step follows (memoryAfter_line _ follows.single) typed accepted

/-- In every run of overlapping commands, what the terminal of a machine has shown and what its
pages hold is what one memory shows and holds that carries out the commands in the order in
which they were entered; only the line of a menu that still waits for its reply is missing. -/
theorem terminals_show (initial : Initial setup start)
    (run : Run (LKP.Dsm.step setup) (CaughtUpText setup) start events outputs s) (x : Host) :
    (∀ page, setup.InRange page → (s.machine x).pageText setup page =
      ((memoryAfter (startMemory start) events).sheet page).text x) ∧
    ((s.machine x).menu = .prompt → shownTo x (displayed outputs) =
      shownTo x (showings setup (startMemory start) events)) ∧
    ((s.machine x).menu ≠ .prompt → ∃ missing, shownTo x (displayed outputs) ++ [missing] =
      shownTo x (showings setup (startMemory start) events)) := by
  obtain ⟨_, mirrored⟩ := terminals_mirrored initial run
  refine ⟨fun page inRange => (mirrored.pages x page inRange).pageText inRange, ?_, ?_⟩
  · intro ready
    exact ((mirrored.faces x).ready ready).2
  · intro busy
    cases mirrored.faces x with
    | prompt ready _buffer _same => exact absurd ready busy
    | waiting page reply _waits _short _buffer same _whole _promised => exact ⟨_, same⟩

/-- The loops alone are overlapping commands too. -/
theorem Follows.loops {shown : List Output} {event : Event}
    (follows : Follows setup events outputs s) (loop : event.Loop)
    (accepted : LKP.Dsm.step setup s event = some (after, shown)) :
    CaughtUpText setup s event := by
  cases event with
  | receive x => exact ⟨trivial, trivial, trivial⟩
  | serve x => exact ⟨trivial, trivial, trivial⟩
  | iterate x =>
      rcases follows.flowing.menus x with ready | ⟨page, _, waits⟩
      · simp only [LKP.Dsm.step, ready] at accepted
        cases accepted
      · simp only [LKP.Dsm.step, waits] at accepted
        cases accepted
  | read x page => exact loop.elim
  | write x page message => exact loop.elim
  | select x page => exact loop.elim
  | enter x message => exact loop.elim

theorem Memory.shows_loop (memory : Memory) {event : Event} (loop : event.Loop) :
    memory.shows setup event = [] := by
  cases event with
  | read x page => exact loop.elim
  | _ => rfl

/-- Wherever such a run stands, the receive loops and the blocked reads alone lead to a state
in which both terminals have shown all that the memory shows for the commands entered. -/
theorem terminals_catch_up (initial : Initial setup start)
    (run : Run (LKP.Dsm.step setup) (CaughtUpText setup) start events outputs s) :
    ∃ loops more final,
      Run (LKP.Dsm.step setup) (fun _ event => event.Loop) s loops more final ∧ Settled final ∧
      ∀ x, shownTo x (displayed (outputs ++ more)) =
        shownTo x (showings setup (startMemory start) events) := by
  obtain ⟨loops, more, final, continued, settled, _⟩ := caughtUp_completes initial run
  refine ⟨loops, more, final, continued, settled, ?_⟩
  have whole := continued.history_invariant
    (fun past shownBefore s =>
      Run (LKP.Dsm.step setup) (CaughtUpText setup) start (events ++ past)
        (outputs ++ shownBefore) s ∧
      showings setup (startMemory start) (events ++ past) =
        showings setup (startMemory start) events)
    (by
      rw [List.append_nil, List.append_nil]
      exact ⟨run, rfl⟩)
    (fun past shownBefore before event after shown earlier loop accepted => by
      obtain ⟨ran, same⟩ := earlier
      have follows := (terminals_mirrored initial ran).1
      rw [← List.append_assoc, ← List.append_assoc, showings_append,
        Memory.shows_loop _ loop, List.append_nil]
      exact ⟨.extend ran (follows.loops loop accepted) accepted, same⟩)
  intro x
  rw [← whole.2]
  exact (terminals_show initial whole.1 x).2.1 (settled x).1

end Runs

/-- Machine 1 writes a page, and machine 2 asks for another page and then for this one. -/
def asking : List Event :=
  [.write .one 0 [104, 105], .serve .two, .read .two 1, .serve .one, .receive .two, .read .two 0]

def askedAgain : List Event := asking ++ [.serve .one, .receive .two, .read .two 0]

example : showings twoPages (startMemory (freshSystem twoPages)) askedAgain =
    [(.two, [32]), (.two, [104, 105]), (.two, [])] := by
  decide

private theorem askedAgain_run : (play (CaughtUpText twoPages) askedAgain).isSome = true := by
  decide

theorem terminals_show_askedAgain :
    (∀ page, twoPages.InRange page →
      ((reached _ _ askedAgain_run).machine .two).pageText twoPages page =
        ((memoryAfter (startMemory (freshSystem twoPages)) askedAgain).sheet page).text .two) ∧
    (((reached _ _ askedAgain_run).machine .two).menu = .prompt →
      shownTo .two (displayed ((play (CaughtUpText twoPages) askedAgain).get
        askedAgain_run).2) =
        shownTo .two (showings twoPages (startMemory (freshSystem twoPages)) askedAgain)) ∧
    (((reached _ _ askedAgain_run).machine .two).menu ≠ .prompt →
      ∃ missing, shownTo .two (displayed ((play (CaughtUpText twoPages) askedAgain).get
        askedAgain_run).2) ++ [missing] =
        shownTo .two (showings twoPages (startMemory (freshSystem twoPages)) askedAgain)) :=
  terminals_show (freshSystem_initial twoPages) (play_run _ _ askedAgain_run) .two

private theorem asking_run : (play (CaughtUpText twoPages) asking).isSome = true := by
  decide

theorem terminals_catch_up_asking :
    ∃ loops more final,
      Run (step twoPages) (fun _ event => event.Loop) (reached _ _ asking_run) loops more
        final ∧ Settled final ∧
      ∀ x, shownTo x (displayed (((play (CaughtUpText twoPages) asking).get asking_run).2 ++
          more)) =
        shownTo x (showings twoPages (startMemory (freshSystem twoPages)) asking) :=
  terminals_catch_up (freshSystem_initial twoPages) (play_run _ _ asking_run)

end LKP.Dsm
