import LKP.Dsm.CaughtUp
import LKP.Dsm.SerialCoherence

/-
Overlapping commands always complete.

A menu that accesses a page only when its machine has caught up never sends a stale
read signal, and its requests never meet a page in S.  So every request is answered,
every answer is one `read`, and from every state that can be reached the two receive
loops and the two blocked reads alone bring both menus back to their prompts.
-/

set_option autoImplicit false

namespace LKP.Dsm

open TransitionRun CBuffer TwoCacheMsi

/-- A single command of a machine that has caught up, with a text to write. -/
def CaughtUpText (setup : Setup) (s : System) (event : Event) : Prop :=
  event.Single setup ∧ CaughtUp setup s event ∧ event.Text setup

instance (setup : Setup) (s : System) (event : Event) :
    Decidable (CaughtUpText setup s event) :=
  inferInstanceAs (Decidable (_ ∧ _ ∧ _))

/-! ### Requests never meet a page in S -/

def Heard : Machine → List ProcInfo → Prop
  | _, [] => True
  | machine, data :: rest =>
      (data.asks = true → machine.listMSI data.pageNum ≠ .shared) ∧
        Heard (machine.afterServe data) rest

theorem Heard.post {machine : Machine} {structs : List ProcInfo} {data : ProcInfo}
    (heard : Heard machine structs)
    (last : data.asks = true → (machine.received structs).listMSI data.pageNum ≠ .shared) :
    Heard machine (structs ++ [data]) := by
  induction structs generalizing machine with
  | nil => exact ⟨last, trivial⟩
  | cons head rest ih => exact ⟨heard.1, ih heard.2 last⟩

theorem Heard.of_same {machine other : Machine} {structs : List ProcInfo}
    (heard : Heard machine structs) (same : other.listMSI = machine.listMSI) :
    Heard other structs := by
  induction structs generalizing machine other with
  | nil => trivial
  | cons data rest ih =>
      refine ⟨?_, ih heard.2 ?_⟩
      · rw [same]
        exact heard.1
      · rw [afterServe_listMSI, afterServe_listMSI, same]

def Machine.Stamped (setup : Setup) (machine : Machine) : Prop :=
  ∀ page, setup.InRange page → machine.listMSI page = .modified →
    machine.addr (page * setup.pageSize) ≠ 0

structure Flowing (setup : Setup) (s : System) : Prop where
  table : OneHotTable setup s
  names : NamesPages setup s
  terminated : ∀ x, (s.machine x).Terminated setup
  menus : ∀ x, (s.machine x).SingleMenu setup
  stamped : ∀ x, (s.machine x).Stamped setup
  heard : ∀ x, Heard (s.machine x) (s.inbox x)
  owed : AllOwed (Readable setup) s

theorem Initial.flowing {setup : Setup} {s : System} (initial : Initial setup s) :
    Flowing setup s where
  table := initial.oneHot
  names := initial.namesPages
  terminated := fun x _ _ => initial.zero x _
  menus := fun x => .inl (initial.prompt x)
  stamped := by
    intro x page inRange owned
    rw [initial.invalid x page inRange] at owned
    cases owned
  heard := by
    intro x
    rw [initial.inboxEmpty x]
    trivial
  owed := initial.allOwed _

section Step

variable {setup : Setup} {s after : System} {event : Event} {shown : List Output}
variable {table : Table Host Int}

/-- The machine of a command stands where the table says. -/
theorem CaughtUpText.own (typed : CaughtUpText setup s event)
    (command : event.operations setup ≠ []) : s.inbox event.host = [] := by
  obtain ⟨_single, caughtUp, _text⟩ := typed
  cases event with
  | read x page => exact caughtUp.2
  | write x page message => exact caughtUp.2
  | select x page => exact caughtUp.elim
  | enter x message => exact caughtUp.elim
  | iterate x => exact caughtUp
  | receive x => exact absurd rfl command
  | serve x => exact absurd rfl command

theorem Agrees.quiet_of_modified {machines : Host → Machine} {x : Host} {page : Int}
    (agrees : Agrees setup table machines) (inRange : setup.InRange page)
    (owned : (machines x).listMSI page = .modified) :
    (machines x).tempData.readSignal page = 0 := by
  rw [agrees.entries x page inRange] at owned
  cases known : table page with
  | unowned =>
      rw [known] at owned
      cases owned
  | owned owner => exact agrees.quiet x owner page inRange known
  | shared =>
      rw [known] at owned
      cases owned

theorem CaughtUpText.clean (typed : CaughtUpText setup s event)
    (agrees : Agrees setup table s.drained) : CleanWrite s event := by
  cases event with
  | write x page message =>
      intro owned
      have own := drained_of_empty (typed.2.1.2 : s.inbox x = [])
      rw [← own] at owned ⊢
      rw [agrees.quiet_of_modified typed.1 owned]
      decide
  | _ => trivial

theorem Move.stamped (move : Move setup s event after shown) (text : event.Text setup)
    (oneHot : OneHotTable setup s) (before : ∀ x, (s.machine x).Stamped setup) :
    ∀ x, (after.machine x).Stamped setup := by
  have positive := setup.pageSize_pos
  refine move.machines (Machine.Stamped setup) before ?_
  cases move with
  | hit x index shown _ready _inRange _held =>
      simp only [Event.host, System.put_machine_self]
      exact before x
  | miss x index _ready _inRange _absent =>
      simp only [Event.host, System.post_machine, System.put_machine_self]
      intro page inRange owned
      have other : page ≠ index := by
        rintro rfl
        rw [afterMiss_listMSI, Function.update_self] at owned
        cases owned
      rw [afterMiss_listMSI, Function.update_of_ne other] at owned
      rw [afterMiss_addr_other setup other _ _ (by omega) (by omega)]
      exact before x page inRange owned
  | write x index message _ready _inRange =>
      simp only [Event.host, System.post_machine, System.put_machine_self]
      obtain ⟨some, nulFree, short⟩ := text
      have bytes : strBytes message = message := strBytes_eq_self nulFree
      intro page inRange owned
      by_cases same : page = index
      · subst same
        obtain ⟨first, later, rfl⟩ := List.exists_cons_of_ne_nil some
        have held := memcpy_holds (s.machine x).addr (page * setup.pageSize) (first :: later)
          0 (by simp)
        rw [Int.natCast_zero, Int.add_zero] at held
        rw [afterWrite_addr, bytes, held]
        intro zero
        exact nulFree (by rw [List.getElem_cons_zero] at zero; rw [zero]; simp)
      · rw [afterWrite_listMSI, Function.update_of_ne same] at owned
        rw [afterWrite_addr_other setup same message (by rw [bytes]; omega) _ _ (by omega)
          (by omega)]
        exact before x page inRange owned
  | receive x index next text _waiting _available =>
      simp only [Event.host, System.put_machine_self]
      exact before x
  | serve x recvData rest _oldest =>
      simp only [Event.host, System.serve_machine_self]
      intro page inRange owned
      rw [afterServe_addr]
      by_cases same : page = recvData.pageNum
      · subst same
        rw [afterServe_listMSI, Function.update_self] at owned
        exact before x _ inRange (serverEntry_eq_modified (oneHot x _ inRange) owned)
      · rw [afterServe_listMSI, Function.update_of_ne same] at owned
        exact before x page inRange owned

theorem Move.heard (move : Move setup s event after shown)
    (typed : CaughtUpText setup s event) (agrees : Agrees setup table s.drained)
    (oneHot : OneHotTable setup s) (before : ∀ x, Heard (s.machine x) (s.inbox x)) :
    ∀ x, Heard (after.machine x) (after.inbox x) := by
  cases move with
  | hit x page shown _ready _inRange _held =>
      intro z
      rcases Host.eq_or_eq_peer x z with rfl | rfl
      · rw [System.put_machine_self, System.put_inbox]
        exact (before z).of_same rfl
      · rw [System.put_machine_peer, System.put_inbox]
        exact before _
  | miss x page _ready inRange absent =>
      have empty : s.inbox x = [] := typed.2.1.2
      intro z
      rcases Host.eq_or_eq_peer x z with rfl | rfl
      · rw [System.post_inbox_self, System.put_inbox, empty]
        trivial
      · rw [System.post_machine, System.put_machine_peer, System.post_inbox_peer,
          System.put_inbox]
        refine (before x.peer).post ?_
        intro _asks
        rw [readRequest_pageNum]
        change (s.drained x.peer).listMSI page ≠ .shared
        rw [← drained_of_empty empty] at absent
        -- the reader's own entry is I, so its peer's is not S
        rcases agrees.peer_of_miss inRange ((agrees.absent_iff inRange).mp absent) with
          modified | invalid
        · rw [modified]
          decide
        · rw [invalid]
          decide
  | write x page message _ready inRange =>
      have empty : s.inbox x = [] := typed.2.1.2
      intro z
      rcases Host.eq_or_eq_peer x z with rfl | rfl
      · rw [System.post_inbox_self, System.put_inbox, empty]
        trivial
      · rw [System.post_machine, System.put_machine_peer, System.post_inbox_peer,
          System.put_inbox]
        refine (before x.peer).post ?_
        intro asks
        rw [writeRequest_silent (oneHot x page inRange) (typed.clean agrees)] at asks
        cases asks
  | receive x index next text _waiting _available =>
      intro z
      rcases Host.eq_or_eq_peer x z with rfl | rfl
      · rw [System.put_machine_self, System.put_inbox, System.unread_inbox]
        exact (before z).of_same rfl
      · rw [System.put_machine_peer, System.put_inbox, System.unread_inbox]
        exact before _
  | serve x recvData rest oldest =>
      intro z
      rcases Host.eq_or_eq_peer x z with rfl | rfl
      · have earlier := before z
        rw [oldest] at earlier
        rw [System.serve_machine_self, System.serve_inbox_self]
        exact earlier.2
      · rw [System.serve_machine_peer, System.serve_inbox_peer]
        exact before _

theorem Machine.Stamped.flushes {machine : Machine} {recvData : ProcInfo}
    (stamped : machine.Stamped setup) (names : recvData.Names setup)
    (owned : machine.listMSI recvData.pageNum = .modified) :
    machine.flushText setup recvData ≠ [] := by
  obtain ⟨inRange, place⟩ := names
  have positive := setup.pageSize_pos
  have room : 0 < setup.rest recvData.accessPage := by
    have next : (recvData.pageNum + 1) * setup.pageSize ≤ setup.pageCount * setup.pageSize :=
      Int.mul_le_mul_of_nonneg_right inRange.2.1 (Int.natCast_nonneg _)
    rw [Int.add_mul, Int.one_mul] at next
    unfold Setup.rest
    rw [place]
    omega
  obtain ⟨more, counted⟩ := Nat.exists_eq_succ_of_ne_zero (Nat.ne_of_gt room)
  unfold Machine.flushText
  rw [counted, place, cString, if_neg (stamped _ inRange owned)]
  exact List.cons_ne_nil _ _

/-- Every request that is received is answered with something to read. -/
theorem Flowing.answerable (flowing : Flowing setup s) (typed : CaughtUpText setup s event)
    (agrees : Agrees setup table s.drained) : Answerable setup s event := by
  cases event with
  | serve x =>
      intro recvData oldest asks
      have member : recvData ∈ s.inbox x := List.mem_of_mem_head? oldest
      have names := flowing.names x recvData member
      have heard := flowing.heard x
      obtain ⟨rest, inbox⟩ := List.head?_eq_some_iff.mp (Option.mem_def.mp oldest)
      rw [inbox] at heard
      refine ⟨heard.1 asks, ?_⟩
      intro owned
      exact ⟨(flowing.stamped x).flushes names owned,
        Machine.flush_short (flowing.terminated x) names⟩
  | write x page message => exact typed.clean agrees
  | _ => trivial

theorem Move.flowing (move : Move setup s event after shown)
    (typed : CaughtUpText setup s event) (agrees : Agrees setup table s.drained)
    (flowing : Flowing setup s) : Flowing setup after where
  table := move.oneHot flowing.table
  names := move.namesPages flowing.names
  terminated := by
    refine move.terminated ?_ flowing.terminated
    rintro x page message rfl
    exact Nat.lt_of_le_of_lt (strBytes_length_le message) typed.2.2.2.2
  menus := move.singleMenus flowing.menus
  stamped := move.stamped typed.2.2 flowing.table flowing.stamped
  heard := move.heard typed agrees flowing.table flowing.heard
  owed := move.readable (flowing.answerable typed agrees) flowing.table flowing.names
    flowing.owed

end Step

/-! ### The last writer's copy -/

def System.calm (s : System) : System :=
  { s with machine := s.drained, inbox := fun _ => [] }

section Copies

variable {setup : Setup} {page : Int} {events : List Event} {writer : Host}
variable {message : List UInt8} {s after : System} {event : Event} {shown : List Output}

/-- A command of a machine that has caught up does the same to the regions when its peer
has received everything. -/
theorem Move.calm (move : Move setup s event after shown)
    (command : event.operations setup ≠ []) (own : s.inbox event.host = []) :
    ∃ later said, Move setup s.calm event later said ∧
      ∀ z, (later.machine z).addr = (after.machine z).addr := by
  have same : s.calm.machine event.host = s.machine event.host := drained_of_empty own
  have other : (s.calm.machine event.host.peer).addr = (s.machine event.host.peer).addr :=
    received_addr ..
  cases move with
  | hit x index shown ready inRange held noReply =>
      rw [Event.host] at same other
      refine ⟨_, _, .hit x index shown (by rw [same]; exact ready) inRange
        (by rw [same]; exact held) noReply, ?_⟩
      intro z
      rcases Host.eq_or_eq_peer x z with rfl | rfl
      · rw [System.put_machine_self, System.put_machine_self, same]
      · rw [System.put_machine_peer, System.put_machine_peer, other]
  | miss x index ready inRange absent =>
      rw [Event.host] at same other
      refine ⟨_, _, .miss x index (by rw [same]; exact ready) inRange
        (by rw [same]; exact absent), ?_⟩
      intro z
      rcases Host.eq_or_eq_peer x z with rfl | rfl
      · rw [System.post_machine, System.post_machine, System.put_machine_self,
          System.put_machine_self, same]
      · rw [System.post_machine, System.post_machine, System.put_machine_peer,
          System.put_machine_peer, other]
  | write x index line ready inRange =>
      rw [Event.host] at same other
      refine ⟨_, _, .write x index line (by rw [same]; exact ready) inRange, ?_⟩
      intro z
      rcases Host.eq_or_eq_peer x z with rfl | rfl
      · rw [System.post_machine, System.post_machine, System.put_machine_self,
          System.put_machine_self, same]
      · rw [System.post_machine, System.post_machine, System.put_machine_peer,
          System.put_machine_peer, other]
  | receive x index next text _waiting _available => exact absurd rfl command
  | serve x recvData rest _oldest => exact absurd rfl command

theorem LastCopy.of_addr (copy : LastCopy setup page events writer message s)
    (bytes : ∀ z, (s.machine z).addr = (after.machine z).addr) :
    LastCopy setup page events writer message after where
  text := copy.text
  stored := copy.stored
  held := by
    rw [← bytes writer]
    exact copy.held
  blank shared := by
    rw [← bytes writer.peer]
    exact copy.blank shared

theorem Move.caughtUp_copies (move : Move setup s event after shown)
    (typed : CaughtUpText setup s event)
    (agrees : Agrees setup (tableAfter (operations setup events)) s.drained)
    (copies : ∀ writer message, lastWrite page events = some (writer, message) →
      LastCopy setup page events writer message s)
    (last : lastWrite page (events ++ [event]) = some (writer, message)) :
    LastCopy setup page (events ++ [event]) writer message after := by
  by_cases loop : event.operations setup = []
  · exact move.copies typed.2.2 (fun command => absurd loop command) copies last
  · obtain ⟨later, said, calm, bytes⟩ := move.calm loop (typed.own loop)
    have copied : LastCopy setup page (events ++ [event]) writer message later := by
      refine calm.copies typed.2.2 (fun _ => agrees) ?_ last
      intro author line wrote
      exact (copies author line wrote).of_addr (fun z => (received_addr ..).symm)
    exact copied.of_addr bytes

end Copies

/-! ### Runs -/

/-- What a run of overlapping commands has come to. -/
structure Follows (setup : Setup) (events : List Event) (outputs : List Output)
    (s : System) : Prop where
  single : ∀ event ∈ events, event.Single setup
  concurrent : ∃ x, Concurrent setup x (operations setup events) events outputs s
  flowing : Flowing setup s
  copies : ∀ page writer message, setup.InRange page →
    lastWrite page events = some (writer, message) →
    LastCopy setup page events writer message s

theorem Initial.follows {setup : Setup} {s : System} (initial : Initial setup s) :
    Follows setup [] [] s where
  single := by
    intro event member
    cases member
  concurrent := ⟨.one, initial.toCold.concurrent⟩
  flowing := initial.flowing
  copies := by
    intro page writer message _inRange last
    cases last

section Following

variable {setup : Setup} {events : List Event} {outputs : List Output}
variable {start s after : System} {event : Event} {shown : List Output}

theorem Follows.agrees (follows : Follows setup events outputs s) :
    Agrees setup (tableAfter (operations setup events)) s.drained := by
  obtain ⟨x, concurrent⟩ := follows.concurrent
  exact concurrent.agrees

theorem Follows.extend (follows : Follows setup events outputs s)
    (typed : CaughtUpText setup s event) (accepted : step setup s event = some (after, shown)) :
    Follows setup (events ++ [event]) (outputs ++ shown) after := by
  have move := Move.of_step typed.1 accepted
  have single : ∀ past ∈ events ++ [event], past.Single setup := by
    intro past member
    rcases List.mem_append.mp member with earlier | new
    · exact follows.single past earlier
    · rw [List.mem_singleton.mp new]
      exact typed.1
  refine ⟨single, ?_, move.flowing typed follows.agrees follows.flowing, ?_⟩
  · obtain ⟨x, concurrent⟩ := follows.concurrent
    obtain ⟨w, done, next⟩ := concurrent.step typed.2.1 accepted
    rw [next.issued single] at next
    exact ⟨w, next⟩
  · intro page writer message inRange last
    exact move.caughtUp_copies typed follows.agrees
      (fun author line => follows.copies page author line inRange) last

theorem caughtUp_follows (initial : Initial setup start)
    (run : Run (step setup) (CaughtUpText setup) start events outputs s) :
    Follows setup events outputs s :=
  run.history_invariant (Follows setup) initial.follows
    (fun _ _ _ _ _ _ follows typed accepted => follows.extend typed accepted)

end Following

/-! ### Completion -/

def System.pending (s : System) (x : Host) : Nat :=
  (s.inbox x).length + if (s.machine x).menu = .prompt then 0 else 1

def System.unfinished (s : System) : Nat := s.pending .one + s.pending .two

theorem unfinished_eq (s : System) (x : Host) :
    s.unfinished = s.pending x + s.pending x.peer := by
  cases x with
  | one => rfl
  | two => exact Nat.add_comm ..

theorem unfinished_lowers {s after : System} (x : Host)
    (own : after.pending x < s.pending x) (peer : after.pending x.peer = s.pending x.peer) :
    after.unfinished < s.unfinished := by
  rw [unfinished_eq s x, unfinished_eq after x]
  omega

section Loops

variable {setup : Setup} {events : List Event} {outputs : List Output} {s : System} {x : Host}

/-- A receive loop with a struct to take takes it. -/
theorem serve_lowers {recvData : ProcInfo} {rest : List ProcInfo}
    (oldest : s.inbox x = recvData :: rest) :
    (s.serve setup x recvData rest).1.unfinished < s.unfinished := by
  apply unfinished_lowers x
  · unfold System.pending
    rw [System.serve_machine_self, System.serve_inbox_self, afterServe_menu, oldest,
      List.length_cons]
    omega
  · unfold System.pending
    rw [System.serve_machine_peer, System.serve_inbox_peer]

theorem receive_lowers {received left : List UInt8} {page : Int}
    (waiting : (s.machine x).menu = .awaitReply page) :
    ((s.unread x left).put x
      (menuReceive setup page .prompt received (s.machine x)).1).unfinished <
        s.unfinished := by
  apply unfinished_lowers x
  · unfold System.pending
    rw [System.put_machine_self, System.put_inbox, System.unread_inbox, menuReceive_menu,
      waiting]
    simp
  · unfold System.pending
    rw [System.put_machine_peer, System.put_inbox, System.unread_inbox, System.unread_machine]

/-- A machine with something pending lets a loop go on once its peer has served. -/
theorem Follows.loop (follows : Follows setup events outputs s) (busy : 0 < s.unfinished) :
    ∃ event next shown, event.Loop ∧ CaughtUpText setup s event ∧
      step setup s event = some (next, shown) ∧ next.unfinished < s.unfinished := by
  by_cases drained : Drained s
  · -- nothing is in flight, so a menu waits, and its reply has come
    have waiting : ∃ x, (s.machine x).menu ≠ .prompt := by
      by_contra none
      simp only [not_exists, not_not] at none
      simp [System.unfinished, System.pending, drained .one, drained .two, none] at busy
    obtain ⟨x, waits⟩ := waiting
    obtain ⟨page, _inRange, waiting⟩ := (follows.flowing.menus x).resolve_left waits
    have blocked : (s.machine x).menu.awaiting = .some (page, .prompt) := by
      rw [waiting]
      rfl
    have owed := follows.flowing.owed x
    rw [blocked, drained x.peer] at owed
    have available : s.replies x ≠ [] := by
      generalize s.replies x = unread at owed
      cases owed with
      | asked one _named => cases one
      | answered _none fits => exact fits.1
    have ⟨text, accepted⟩ : ∃ text, step setup s (.receive x) = _ :=
      step_receive blocked available
    exact ⟨.receive x, _, _, trivial, ⟨trivial, trivial, trivial⟩, accepted,
      receive_lowers waiting⟩
  · obtain ⟨x, inFlight⟩ := not_forall.mp drained
    obtain ⟨recvData, rest, oldest⟩ := List.exists_cons_of_ne_nil inFlight
    exact ⟨.serve x, _, _, trivial, ⟨trivial, trivial, trivial⟩, step_serve oldest,
      serve_lowers oldest⟩

theorem settled_of_finished (finished : s.unfinished = 0) : Settled s := by
  intro x
  rw [unfinished_eq s x] at finished
  have own : s.pending x = 0 := by omega
  unfold System.pending at own
  have empty : (s.inbox x).length = 0 := by omega
  refine ⟨?_, List.length_eq_zero_iff.mp empty⟩
  by_contra busy
  rw [if_neg busy] at own
  omega

end Loops

/-- From every state of such a run the receive loops and the blocked reads alone lead to a
state in which both menus prompt, nothing is in flight and no reply byte is unread. -/
theorem caughtUp_completes {setup : Setup} {start s : System} {events : List Event}
    {outputs : List Output} (initial : Initial setup start)
    (run : Run (step setup) (CaughtUpText setup) start events outputs s) :
    ∃ loops more final, Run (step setup) (fun _ event => event.Loop) s loops more final ∧
      Settled final ∧ ∀ x, final.replies x = [] := by
  have lowers : ∀ s : System, (∃ past shownBefore, Follows setup past shownBefore s) →
      0 < s.unfinished → ∃ event next shown, event.Loop ∧
        step setup s event = some (next, shown) ∧
          (∃ past shownBefore, Follows setup past shownBefore next) ∧
            next.unfinished < s.unfinished := by
    rintro s ⟨past, shownBefore, follows⟩ some
    obtain ⟨event, next, shown, loop, typed, accepted, lower⟩ := follows.loop some
    exact ⟨event, next, shown, loop, accepted, ⟨_, _, follows.extend typed accepted⟩, lower⟩
  obtain ⟨loops, more, final, continued, ⟨past, shownBefore, follows⟩, finished⟩ :=
    Run.descends _ _ lowers ⟨events, outputs, caughtUp_follows initial run⟩
  have settled := settled_of_finished finished
  refine ⟨loops, more, final, continued, settled, ?_⟩
  intro x
  have owed := follows.flowing.owed x
  rw [(settled x).1] at owed
  exact owed.idle_inv.2

/-- With nothing in flight the last message written to a page is still at the start of its
writer's copy, which the writer holds in M or S; and if the other machine holds the page,
its copy is empty, so that a read there displays nothing. -/
theorem caughtUp_last_write {setup : Setup} {start final : System} {events : List Event}
    {outputs : List Output} (initial : Initial setup start)
    (run : Run (step setup) (CaughtUpText setup) start events outputs final)
    (drained : Drained final) {page : Int} (inRange : setup.InRange page) {writer : Host}
    {message : List UInt8} (last : lastWrite page events = some (writer, message)) :
    (final.machine writer).listMSI page ≠ .invalid ∧
      Holds (final.machine writer).addr (page * setup.pageSize) message ∧
      ((final.machine writer.peer).listMSI page ≠ .invalid →
        (final.machine writer.peer).pageText setup page = []) := by
  have follows := caughtUp_follows initial run
  have copy := follows.copies page writer message inRange last
  have entries : ∀ z, (final.machine z).listMSI page =
      modeEntry ((tableAfter (operations setup events) page).mode z) := by
    intro z
    rw [← follows.agrees.entries z page inRange, drained_of_empty (drained z)]
  rcases line_of_lastStore copy.stored with owned | shared
  · refine ⟨?_, copy.held, ?_⟩
    · rw [entries writer, owned, mode_owned_self]
      decide
    · intro held
      rw [entries writer.peer, owned, mode_owned_other (Host.peer_ne writer)] at held
      exact absurd rfl held
  · refine ⟨?_, copy.held, ?_⟩
    · rw [entries writer, shared]
      exact (by decide : MSIList.shared ≠ .invalid)
    · intro _held
      exact cString_of_nul _ _ _ (copy.blank shared)

/-- The commands of the two machines up to a state with a struct in flight and a menu that
waits. -/
def halfway : List Event :=
  [.write .one 0 [97], .write .one 1 [98], .serve .two, .serve .two, .read .two 0,
    .serve .one, .write .one 1 [99]]

private theorem halfway_run : (play (CaughtUpText twoPages) halfway).isSome = true := by
  decide

theorem caughtUp_completes_halfway :
    ∃ loops more final, Run (step twoPages) (fun _ event => event.Loop)
        (reached _ halfway halfway_run) loops more final ∧
      Settled final ∧ ∀ x, final.replies x = [] :=
  caughtUp_completes (freshSystem_initial twoPages) (play_run _ halfway halfway_run)

private theorem fetched_run :
    (play (CaughtUpText twoPages) (halfway ++ [.receive .two, .serve .two])).isSome =
      true := by
  decide

theorem caughtUp_last_write_fetched :
    ((reached _ _ fetched_run).machine .one).listMSI 0 ≠ .invalid ∧
      Holds ((reached _ _ fetched_run).machine .one).addr (0 * twoPages.pageSize) [97] ∧
      (((reached _ _ fetched_run).machine Host.one.peer).listMSI 0 ≠ .invalid →
        ((reached _ _ fetched_run).machine Host.one.peer).pageText twoPages 0 = []) :=
  caughtUp_last_write (freshSystem_initial twoPages) (play_run _ _ fetched_run)
    (drained_of_hosts (by decide) (by decide)) (by decide) (by decide)

end LKP.Dsm
