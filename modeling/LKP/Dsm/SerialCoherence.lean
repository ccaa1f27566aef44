import LKP.Dsm.Undisturbed
import LKP.Dsm.SerialRefinement

/-
What a serial `r` displays of the last message written to a page.

Three things come between the two.  A write copies no NUL, so the tail of a longer
message stays in the writer's page.  A fetched page is displayed from `recv_message`
and never copied into the reader's page, which was zeroed before the request, so the
next read of it displays nothing.  `recv_message` is not cleared either, so a reply is
displayed with what an earlier and longer one left behind it.
-/

set_option autoImplicit false

namespace LKP.Dsm

open TransitionRun CBuffer TwoCacheMsi

/-! ### Runs of single commands with text messages -/

def Setup.Text (setup : Setup) (message : List UInt8) : Prop :=
  message ≠ [] ∧ (0 : UInt8) ∉ message ∧ message.length < setup.pageSize

instance (setup : Setup) (message : List UInt8) : Decidable (setup.Text message) :=
  inferInstanceAs (Decidable (_ ∧ _ ∧ _))

def Event.Text (setup : Setup) : Event → Prop
  | .write _ _ message => setup.Text message
  | _ => True

instance (setup : Setup) (event : Event) : Decidable (event.Text setup) :=
  match event with
  | .write _ _ message => inferInstanceAs (Decidable (setup.Text message))
  | .read _ _ | .select _ _ | .enter _ _ | .iterate _ | .receive _ | .serve _ =>
      inferInstanceAs (Decidable True)

def SerialText (setup : Setup) (s : System) (event : Event) : Prop :=
  event.Single setup ∧ Serial setup s event ∧ event.Text setup

instance (setup : Setup) (s : System) (event : Event) :
    Decidable (SerialText setup s event) :=
  inferInstanceAs (Decidable (_ ∧ _ ∧ _))

def lastWrite (page : Int) (events : List Event) : Option (Host × List UInt8) :=
  events.foldl
    (fun last event =>
      match event with
      | .write x index message => if index = page then some (x, message) else last
      | _ => last)
    none

def displayed (outputs : List Output) : List (Host × List UInt8) :=
  outputs.filterMap fun output =>
    match output with
    | .displayed x text => some (x, text)
    | _ => none

theorem displayed_append (outputs shown : List Output) :
    displayed (outputs ++ shown) = displayed outputs ++ displayed shown :=
  List.filterMap_append ..

/-! ### The last writer's copy -/

/-- The last writer's page begins with the message, and while the page is shared the other
machine's is empty. -/
structure LastCopy (setup : Setup) (page : Int) (events : List Event) (writer : Host)
    (message : List UInt8) (s : System) : Prop where
  text : setup.Text message
  stored : lastStore page (operations setup events) = some writer
  held : Holds (s.machine writer).addr (page * setup.pageSize) message
  blank : tableAfter (operations setup events) page = .shared →
    (s.machine writer.peer).addr (page * setup.pageSize) = 0

structure Copied (setup : Setup) (events : List Event) (s : System) : Prop where
  table : OneHotTable setup s
  names : NamesPages setup s
  terminated : ∀ x, (s.machine x).Terminated setup
  owed : AllOwed (fun text => text.length ≤ setup.pageSize) s
  copies : ∀ page writer message, setup.InRange page →
    lastWrite page events = some (writer, message) →
    LastCopy setup page events writer message s

theorem Initial.copied {setup : Setup} {s : System} (initial : Initial setup s) :
    Copied setup [] s where
  table := initial.oneHot
  names := initial.namesPages
  terminated := fun x _ _ => initial.zero x _
  owed := initial.allOwed _
  copies := by
    intro page writer message _inRange last
    cases last

section Steps

variable {setup : Setup} {page : Int} {events : List Event} {writer : Host}
variable {message : List UInt8} {s after : System} {event : Event} {shown : List Output}

/-- A step that keeps the bytes of the page and the line of the page keeps the copy. -/
theorem LastCopy.of_same (copy : LastCopy setup page events writer message s)
    (stored : lastStore page (operations setup (events ++ [event])) =
      lastStore page (operations setup events))
    (line : tableAfter (operations setup (events ++ [event])) page =
      tableAfter (operations setup events) page)
    (bytes : ∀ x, ∀ offset : Int, page * setup.pageSize ≤ offset →
      offset < page * setup.pageSize + setup.pageSize →
      (after.machine x).addr offset = (s.machine x).addr offset) :
    LastCopy setup page (events ++ [event]) writer message after where
  text := copy.text
  stored := stored.trans copy.stored
  held := by
    have fits := copy.text.2.2
    exact copy.held.of_agree
      (fun offset lower upper => bytes writer offset lower (by omega))
  blank shared := by
    have positive := setup.pageSize_pos
    rw [line] at shared
    rw [bytes writer.peer _ (by omega) (by omega)]
    exact copy.blank shared

theorem LastCopy.of_loop (copy : LastCopy setup page events writer message s)
    (loop : event.operations setup = [])
    (bytes : ∀ x, (after.machine x).addr = (s.machine x).addr) :
    LastCopy setup page (events ++ [event]) writer message after := by
  apply copy.of_same
  · rw [operations_append, loop, List.append_nil]
  · rw [operations_append, loop, List.append_nil]
  · intro x offset _lower _upper
    rw [bytes x]

theorem lastStore_access (operations : List (Operation Host Int)) (x : Host) (index : Int)
    {access : Access} (other : index ≠ page ∨ access = .load) :
    lastStore page (operations ++ [⟨x, index, access⟩]) = lastStore page operations := by
  rw [lastStore_append]
  apply if_neg
  intro premise
  obtain ⟨same, stores⟩ := premise
  rcases other with different | loads
  · exact different same
  · rw [loads] at stores
    cases stores

theorem operations_read (x : Host) {index : Int} (inRange : setup.InRange index) :
    operations setup (events ++ [.read x index]) =
      operations setup events ++ [⟨x, index, .load⟩] := by
  rw [operations_append]
  change _ ++ accesses x .load (setup.pagesOf index) = _
  rw [pagesOf_inRange_eq inRange]
  rfl

theorem operations_write (x : Host) {index : Int} (inRange : setup.InRange index)
    (text : List UInt8) :
    operations setup (events ++ [.write x index text]) =
      operations setup events ++ [⟨x, index, .store⟩] := by
  rw [operations_append]
  change _ ++ accesses x .store (setup.pagesOf index) = _
  rw [pagesOf_inRange_eq inRange]
  rfl

theorem lastWrite_append (page : Int) (events : List Event) (event : Event) :
    lastWrite page (events ++ [event]) =
      match event with
      | .write x index message => if index = page then some (x, message) else lastWrite page events
      | _ => lastWrite page events := by
  simp only [lastWrite, List.foldl_append, List.foldl_cons, List.foldl_nil]

private theorem line_read (x : Host) {index : Int} (inRange : setup.InRange index)
    (other : page ≠ index) :
    tableAfter (operations setup (events ++ [.read x index])) page =
      tableAfter (operations setup events) page := by
  rw [operations_read x inRange, tableAfter_append]
  exact apply_other _ _ other

private theorem copies_read (x : Host) {index : Int} (inRange : setup.InRange index)
    (agrees : Agrees setup (tableAfter (operations setup events)) s.machine)
    (copy : LastCopy setup page events writer message s)
    (bytes : page ≠ index ∨ (s.machine x).listMSI index ≠ .invalid →
      ∀ z, ∀ offset : Int, page * setup.pageSize ≤ offset →
        offset < page * setup.pageSize + setup.pageSize →
        (after.machine z).addr offset = (s.machine z).addr offset)
    (zeroed : (s.machine x).listMSI index = .invalid →
      (after.machine x).addr (index * setup.pageSize) = 0)
    (peer : after.machine x.peer = s.machine x.peer) :
    LastCopy setup page (events ++ [.read x index]) writer message after := by
  have stored : lastStore page (operations setup (events ++ [.read x index])) =
      lastStore page (operations setup events) := by
    rw [operations_read x inRange]
    exact lastStore_access _ x index (.inr rfl)
  by_cases same : page = index
  · subst same
    have entry := agrees.entries x page inRange
    by_cases missing : (s.machine x).listMSI page = .invalid
    · -- the reader has lost the page to the last writer
      have different : writer ≠ x := by
        intro same
        subst same
        rw [missing] at entry
        rcases line_of_lastStore copy.stored with owned | shared
        · rw [owned, mode_owned_self] at entry
          cases entry
        · rw [shared] at entry
          cases entry
      have reader : writer = x.peer := (Host.eq_or_eq_peer x writer).resolve_left different
      subst reader
      refine ⟨copy.text, stored.trans copy.stored, ?_, ?_⟩
      · rw [peer]
        exact copy.held
      · intro _shared
        rw [Host.peer_peer]
        exact zeroed missing
    · apply copy.of_same stored
      · rw [operations_read x inRange, tableAfter_append, apply_load_hit]
        intro absent
        rw [absent] at entry
        exact missing entry
      · exact bytes (.inr missing)
  · exact copy.of_same stored (line_read x inRange same) (bytes (.inl same))

private theorem copies_write (x : Host) {index : Int} (inRange : setup.InRange index)
    {line : List UInt8} (text : setup.Text line) (next : Menu)
    (copies : ∀ writer message, lastWrite page events = some (writer, message) →
      LastCopy setup page events writer message s)
    (own : after.machine x = (s.machine x).afterWrite setup index line next)
    (peer : after.machine x.peer = s.machine x.peer)
    (last : lastWrite page (events ++ [.write x index line]) = some (writer, message)) :
    LastCopy setup page (events ++ [.write x index line]) writer message after := by
  have bytes : strBytes line = line := strBytes_eq_self text.2.1
  rw [lastWrite_append] at last
  by_cases same : index = page
  · subst same
    simp only [if_true, Option.some.injEq, Prod.mk.injEq] at last
    obtain ⟨rfl, rfl⟩ := last
    refine ⟨text, ?_, ?_, ?_⟩
    · rw [operations_write x inRange, lastStore_append]
      exact if_pos ⟨rfl, rfl⟩
    · rw [own, afterWrite_addr, bytes]
      exact memcpy_holds _ _ _
    · intro shared
      rw [operations_write x inRange, tableAfter_append] at shared
      have owned : (tableAfter (operations setup events)).apply ⟨x, index, .store⟩ index =
          .owned x := apply_same ..
      rw [owned] at shared
      cases shared
  · simp only [if_neg same] at last
    have copy := copies writer message last
    apply copy.of_same
    · rw [operations_write x inRange]
      exact lastStore_access _ x index (.inl same)
    · rw [operations_write x inRange, tableAfter_append]
      exact apply_other _ _ (Ne.symm same)
    · intro z offset lower upper
      rcases Host.eq_or_eq_peer x z with rfl | rfl
      · rw [own]
        have fits := text.2.2
        exact afterWrite_addr_other setup (Ne.symm same) line (by rw [bytes]; omega) next _
          lower upper
      · rw [peer]

theorem Move.copies (move : Move setup s event after shown) (text : event.Text setup)
    (agrees : event.operations setup ≠ [] →
      Agrees setup (tableAfter (operations setup events)) s.machine)
    (copies : ∀ writer message, lastWrite page events = some (writer, message) →
      LastCopy setup page events writer message s)
    (last : lastWrite page (events ++ [event]) = some (writer, message)) :
    LastCopy setup page (events ++ [event]) writer message after := by
  have command : ∀ {x : Host} {access : Access} {index : Int}, setup.InRange index →
      accesses x access (setup.pagesOf index) ≠ [] := by
    intro x access index named
    rw [pagesOf_inRange_eq named]
    exact List.cons_ne_nil _ _
  cases move with
  | hit x index shown _ready named held =>
      rw [lastWrite_append] at last
      refine copies_read x named (agrees (command named)) (copies writer message last) ?_ ?_ ?_
      · intro _kept z offset _lower _upper
        rcases Host.eq_or_eq_peer x z with rfl | rfl
        · rw [System.put_machine_self, afterHit_addr]
        · rw [System.put_machine_peer]
      · intro absent
        exact absurd absent held
      · exact System.put_machine_peer ..
  | miss x index _ready named absent =>
      rw [lastWrite_append] at last
      refine copies_read x named (agrees (command named)) (copies writer message last) ?_ ?_ ?_
      · intro kept z offset lower upper
        have other : page ≠ index := by
          rcases kept with other | held
          · exact other
          · rcases (agrees (command named)).oneHot x named with same | same | same
            · rw [same] at absent
              cases absent
            · rw [same] at absent
              cases absent
            · exact absurd same held
        rcases Host.eq_or_eq_peer x z with rfl | rfl
        · rw [System.post_machine, System.put_machine_self]
          exact afterMiss_addr_other setup other _ _ lower upper
        · rw [System.post_machine, System.put_machine_peer]
      · intro _missing
        have positive := setup.pageSize_pos
        rw [System.post_machine, System.put_machine_self, afterMiss_addr]
        exact memset_inside _ _ _ _ (by omega) (by omega)
      · rw [System.post_machine]
        exact System.put_machine_peer ..
  | write x index line _ready named =>
      refine copies_write x named text .prompt copies ?_ ?_ last
      · rw [System.post_machine]
        exact System.put_machine_self ..
      · rw [System.post_machine]
        exact System.put_machine_peer ..
  | receive x index next shownText _waiting _available =>
      rw [lastWrite_append] at last
      apply (copies writer message last).of_loop rfl
      intro z
      rcases Host.eq_or_eq_peer x z with rfl | rfl
      · rw [System.put_machine_self, menuReceive_addr]
      · rw [System.put_machine_peer, System.unread_machine]
  | serve x recvData rest _oldest =>
      rw [lastWrite_append] at last
      apply (copies writer message last).of_loop rfl
      intro z
      rcases Host.eq_or_eq_peer x z with rfl | rfl
      · rw [System.serve_machine_self, afterServe_addr]
      · rw [System.serve_machine_peer]

/-- A command is issued between commands, so its machine stands where the table says. -/
theorem SerialText.settled (serial : SerialText setup s event)
    (command : event.operations setup ≠ []) : Settled s := by
  obtain ⟨_single, issued, _text⟩ := serial
  cases event with
  | read x index => exact issued.2
  | write x index line => exact issued.2
  | select x index => exact issued.elim
  | enter x line => exact issued.elim
  | iterate x => exact absurd rfl command
  | receive x => exact absurd rfl command
  | serve x => exact absurd rfl command

theorem Move.copied (move : Move setup s event after shown) (serial : SerialText setup s event)
    (agrees : Settled s → Agrees setup (tableAfter (operations setup events)) s.machine)
    (copied : Copied setup events s) : Copied setup (events ++ [event]) after where
  table := move.oneHot copied.table
  names := move.namesPages copied.names
  terminated := by
    refine move.terminated ?_ copied.terminated
    rintro x index line rfl
    exact Nat.lt_of_le_of_lt (strBytes_length_le line) serial.2.2.2.2
  owed := by
    refine move.allOwed (fun _ short => short) ?_ ?_ copied.table copied.owed
    · cases event with
      | write x index line =>
          intro owned
          have machines := agrees serial.2.1.2
          have entry := machines.entries x index serial.1
          rw [owned] at entry
          have off : (s.machine x).tempData.readSignal index = 0 := by
            cases known : tableAfter (operations setup events) index with
            | unowned =>
                rw [known] at entry
                cases entry
            | owned owner => exact machines.quiet x owner index serial.1 known
            | shared =>
                rw [known] at entry
                cases entry
          rw [off]
          decide
      | _ => trivial
    · intro x recvData _serves oldest _asks
      exact System.answer_short (copied.terminated x)
        (copied.names x recvData (List.mem_of_mem_head? oldest))
  copies := by
    intro index owner line inRange last
    exact move.copies serial.2.2 (fun command => agrees (serial.settled command))
      (fun writer message => copied.copies index writer message inRange) last

end Steps

theorem serial_copied {setup : Setup} {start final : System} {events : List Event}
    {outputs : List Output} (initial : Initial setup start)
    (run : Run (step setup) (SerialText setup) start events outputs final) :
    Copied setup events final ∧
      (Settled final → Agrees setup (tableAfter (operations setup events)) final.machine) := by
  have followed : Run (step setup) (Serial setup) start events outputs final ∧
      Copied setup events final := by
    refine run.history_invariant
      (fun past shownBefore s => Run (step setup) (Serial setup) start past shownBefore s ∧
        Copied setup past s) ⟨.stop, initial.copied⟩ ?_
    rintro past shownBefore before event after shown ⟨whole, copied⟩ serial accepted
    refine ⟨whole.extend serial.2.1 accepted, ?_⟩
    have move := Move.of_step serial.1 accepted
    apply move.copied serial _ copied
    intro settled
    obtain ⟨x, done, progress⟩ := serial_progress initial.toCold whole
    exact progress.agrees settled
  refine ⟨followed.2, ?_⟩
  intro settled
  obtain ⟨x, done, progress⟩ := serial_progress initial.toCold followed.1
  exact progress.agrees settled

/-! ### What one `r` displays -/

def Event.Loop : Event → Prop
  | .iterate _ | .receive _ | .serve _ => True
  | _ => False

section Display

variable {setup : Setup} {allowed : System → Event → Prop} {s final : System} {x : Host}
variable {page : Int} {event : Event} {rest : List Event} {shown : List Output}

theorem step_settled (settled : Settled s) (loop : event.Loop) : step setup s event = none := by
  cases event with
  | iterate z => simp only [step, (settled z).1]
  | receive z => simp only [step, (settled z).1, Menu.awaiting]
  | serve z => simp only [step, (settled z).2]
  | _ => exact loop.elim

theorem Run.of_settled (run : Run (step setup) allowed s rest shown final)
    (settled : Settled s) (loops : ∀ event ∈ rest, event.Loop) : shown = [] := by
  cases rest with
  | nil => exact run.nil_inv.1
  | cons event later =>
      obtain ⟨next, first, remaining, _admitted, accepted, _later, _shown⟩ := run.uncons
      rw [step_settled settled (loops event List.mem_cons_self)] at accepted
      cases accepted

/-- While `x` waits for a page, its peer serves or `x` takes a reply. -/
theorem fetching_next (waiting : (s.machine x).menu = .awaitReply page)
    (peer : (s.machine x.peer).menu = .prompt) (own : s.inbox x = []) (loop : event.Loop)
    {result : System × List Output} (accepted : step setup s event = some result) :
    (event = .serve x.peer ∧ s.inbox x.peer ≠ []) ∨ (event = .receive x ∧ s.replies x ≠ []) := by
  cases event with
  | iterate z =>
      rcases Host.eq_or_eq_peer x z with rfl | rfl
      · simp only [step, waiting] at accepted
        cases accepted
      · simp only [step, peer] at accepted
        cases accepted
  | receive z =>
      rcases Host.eq_or_eq_peer x z with rfl | rfl
      · right
        refine ⟨rfl, ?_⟩
        intro none
        simp only [step, waiting, Menu.awaiting, none, if_true] at accepted
        cases accepted
      · simp only [step, peer, Menu.awaiting] at accepted
        cases accepted
  | serve z =>
      rcases Host.eq_or_eq_peer x z with rfl | rfl
      · simp only [step, own] at accepted
        cases accepted
      · left
        refine ⟨rfl, ?_⟩
        intro none
        simp only [step, none] at accepted
        cases accepted
  | _ => exact loop.elim

/-- A run that ends between commands does not stop while a menu waits. -/
theorem Run.next_of_waiting (run : Run (step setup) allowed s rest shown final)
    (waiting : (s.machine x).menu = .awaitReply page) (done : Settled final) :
    ∃ event later, rest = event :: later := by
  cases rest with
  | nil =>
      obtain ⟨_shown, rfl⟩ := run.nil_inv
      rw [(done x).1] at waiting
      cases waiting
  | cons event later => exact ⟨event, later, rfl⟩

theorem step_held (ready : (s.machine x).menu = .prompt) (inRange : setup.InRange page)
    (oneHot : ((s.machine x).listMSI page).OneHot)
    (held : (s.machine x).listMSI page ≠ .invalid) :
    step setup s (.read x page) =
      some (s.put x ((s.machine x).afterHit setup page .prompt),
        [.displayed x ((s.machine x).pageText setup page)]) := by
  have present : ((s.machine x).listMSI page).I ≠ true ∧
      (((s.machine x).listMSI page).S = true ∨ ((s.machine x).listMSI page).M = true) := by
    rcases oneHot with modified | shared | invalid
    · rw [modified]
      decide
    · rw [shared]
      decide
    · exact absurd invalid held
  simp only [step, if_pos ready, menuRead_inRange inRange, Machine.pageRead, if_neg present.1,
    if_pos present.2, System.apply]

theorem displayed_of_hit (settled : Settled s) (inRange : setup.InRange page)
    (oneHot : ((s.machine x).listMSI page).OneHot)
    (held : (s.machine x).listMSI page ≠ .invalid) (loops : ∀ event ∈ rest, event.Loop)
    (run : Run (step setup) allowed s (.read x page :: rest) shown final) :
    displayed shown = [(x, (s.machine x).pageText setup page)] := by
  obtain ⟨next, first, remaining, _admitted, accepted, later, rfl⟩ := run.uncons
  rw [step_held (settled x).1 inRange oneHot held] at accepted
  cases accepted
  have after : Settled (s.put x ((s.machine x).afterHit setup page .prompt)) := by
    intro z
    rcases Host.eq_or_eq_peer x z with rfl | rfl
    · rw [System.put_machine_self, afterHit_menu, System.put_inbox]
      exact ⟨rfl, (settled z).2⟩
    · rw [System.put_machine_peer, System.put_inbox]
      exact settled x.peer
  rw [Run.of_settled later after loops, List.append_nil]
  rfl

/-- The last step of a miss: the reply is displayed from the receive buffer. -/
theorem displayed_of_answered {text : List UInt8}
    (waiting : (s.machine x).menu = .awaitReply page)
    (peer : (s.machine x.peer).menu = .prompt) (empty : ∀ z, s.inbox z = [])
    (replied : s.replies x = text) (fits : text.length ≤ setup.pageSize)
    (loops : ∀ event ∈ rest, event.Loop)
    (run : Run (step setup) allowed s rest shown final) (done : Settled final) :
    displayed shown =
      [(x, cString (memcpy (s.machine x).recvMessage 0 text) 0 setup.pageSize)] := by
  obtain ⟨event, later, rfl⟩ := Run.next_of_waiting run waiting done
  obtain ⟨next, first, remaining, _admitted, accepted, continued, rfl⟩ := run.uncons
  rcases fetching_next waiting peer (empty x) (loops event List.mem_cons_self) accepted with
    ⟨_serves, more⟩ | ⟨rfl, available⟩
  · exact absurd (empty x.peer) more
  · simp only [step, waiting, Menu.awaiting, if_neg available, Option.some.injEq] at accepted
    rw [replied, List.take_of_length_le fits] at accepted
    cases accepted
    have after : Settled ((s.unread x (text.drop setup.pageSize)).put x
        (menuReceive setup page .prompt text (s.machine x)).1) := by
      intro z
      rcases Host.eq_or_eq_peer x z with rfl | rfl
      · rw [System.put_machine_self, System.put_inbox, System.unread_inbox]
        exact ⟨rfl, empty z⟩
      · rw [System.put_machine_peer, System.put_inbox, System.unread_inbox,
          System.unread_machine]
        exact ⟨peer, empty x.peer⟩
    rw [Run.of_settled continued after
      (fun event member => loops event (List.mem_cons_of_mem _ member)), List.append_nil]
    rfl

/-- The middle step: the peer receives the request and replies. -/
theorem displayed_of_asked {data : ProcInfo} {text : List UInt8}
    (waiting : (s.machine x).menu = .awaitReply page)
    (peer : (s.machine x.peer).menu = .prompt) (own : s.inbox x = [])
    (asked : s.inbox x.peer = [data]) (read : s.replies x = [])
    (answer : s.answer setup x.peer data = some text) (fits : text.length ≤ setup.pageSize)
    (loops : ∀ event ∈ rest, event.Loop)
    (run : Run (step setup) allowed s rest shown final) (done : Settled final) :
    displayed shown =
      [(x, cString (memcpy (s.machine x).recvMessage 0 text) 0 setup.pageSize)] := by
  obtain ⟨event, later, rfl⟩ := Run.next_of_waiting run waiting done
  obtain ⟨next, first, remaining, _admitted, accepted, continued, rfl⟩ := run.uncons
  rcases fetching_next waiting peer own (loops event List.mem_cons_self) accepted with
    ⟨rfl, _more⟩ | ⟨_receives, available⟩
  · rw [step_serve asked] at accepted
    have machine : next.machine x = s.machine x := by
      have unchanged := System.serve_machine_peer s x.peer data setup []
      rw [Host.peer_peer, Option.some.inj accepted] at unchanged
      exact unchanged
    have reply : next.replies x = text := by
      have sent := System.serve_replies_peer s x.peer data setup []
      rw [Host.peer_peer, Option.some.inj accepted, read, answer] at sent
      exact sent
    have inbox : ∀ z, next.inbox z = [] := by
      intro z
      rcases Host.eq_or_eq_peer x z with rfl | rfl
      · have unchanged := System.serve_inbox_peer s z.peer data setup []
        rw [Host.peer_peer, Option.some.inj accepted, own] at unchanged
        exact unchanged
      · have taken := System.serve_inbox_self s x.peer data setup []
        rw [Option.some.inj accepted] at taken
        exact taken
    have prompt : (next.machine x.peer).menu = .prompt := by
      have served := System.serve_machine_self s x.peer data setup []
      rw [Option.some.inj accepted] at served
      rw [served]
      exact peer
    have silent : displayed first = [] := by
      have outputs := System.serve_outputs s x.peer data setup []
      rw [Option.some.inj accepted, answer] at outputs
      change first = _ at outputs
      rw [outputs]
      rfl
    rw [displayed_append, silent, List.nil_append, ← machine]
    exact displayed_of_answered (by rw [machine]; exact waiting) prompt inbox reply fits
      (fun event member => loops event (List.mem_cons_of_mem _ member)) continued done
  · exact absurd read available

/-- A miss on a page that the peer owns displays the peer's page, from the receive buffer. -/
theorem displayed_of_miss (settled : Settled s) (inRange : setup.InRange page)
    (missing : (s.machine x).listMSI page = .invalid)
    (owned : (s.machine x.peer).listMSI page = .modified) (read : s.replies x = [])
    (fits : ((s.machine x.peer).pageText setup page).length ≤ setup.pageSize)
    (loops : ∀ event ∈ rest, event.Loop)
    (run : Run (step setup) allowed s (.read x page :: rest) shown final)
    (done : Settled final) :
    displayed shown =
      [(x, cString (memcpy (s.machine x).recvMessage 0 ((s.machine x.peer).pageText setup page))
        0 setup.pageSize)] := by
  obtain ⟨next, first, remaining, _admitted, accepted, later, rfl⟩ := run.uncons
  rw [step_miss (settled x).1 inRange (by rw [missing]; rfl)] at accepted
  cases accepted
  rw [displayed_append]
  change [] ++ displayed remaining = _
  rw [List.nil_append]
  generalize asks : (s.put x ((s.machine x).afterMiss setup page (.awaitReply page))).post x
    (readRequest setup page (s.machine x).tempData) = asking at later
  have own : asking.machine x = (s.machine x).afterMiss setup page (.awaitReply page) := by
    rw [← asks, System.post_machine, System.put_machine_self]
  have peer : asking.machine x.peer = s.machine x.peer := by
    rw [← asks, System.post_machine, System.put_machine_peer]
  have asked : asking.inbox x.peer = [readRequest setup page (s.machine x).tempData] := by
    rw [← asks, System.post_inbox_peer, System.put_inbox, (settled x.peer).2]
    rfl
  have answer : asking.answer setup x.peer (readRequest setup page (s.machine x).tempData) =
      some ((s.machine x.peer).pageText setup page) := by
    rw [System.answer, peer, readRequest_pageNum, owned, serverReply_modified,
      readRequest_pageNum, if_pos (readRequest_readSignal ..)]
    rfl
  have shown := displayed_of_asked (by rw [own]; rfl) (by rw [peer]; exact (settled x.peer).1)
    (by rw [← asks, System.post_inbox_self]; exact (settled x).2) asked
    (by rw [← asks]; exact read) answer fits loops later done
  rw [shown, own]
  rfl

end Display

/-- A NUL follows the message in the last writer's copy, and the reader is the writer, or
it has the page in I and a NUL at that place of its receive buffer. -/
def ShowsLast (setup : Setup) (s : System) (x : Host) (page : Int) (writer : Host)
    (message : List UInt8) : Prop :=
  (s.machine writer).addr (page * setup.pageSize + message.length) = 0 ∧
    (x = writer ∨ ((s.machine x).listMSI page = .invalid ∧
      (s.machine x).recvMessage message.length = 0))

section Shown

variable {setup : Setup} {page : Int} {writer : Host} {message : List UInt8}
variable {events : List Event} {s : System}

theorem Setup.page_le_rest (inRange : setup.InRange page) :
    setup.pageSize ≤ setup.rest (page * setup.pageSize) := by
  have next : (page + 1) * setup.pageSize ≤ setup.pageCount * setup.pageSize :=
    Int.mul_le_mul_of_nonneg_right inRange.2.1 (Int.natCast_nonneg _)
  rw [Int.add_mul, Int.one_mul] at next
  unfold Setup.rest
  omega

/-- The last writer's page reads as the message when a NUL follows it. -/
theorem LastCopy.pageText_iff (copy : LastCopy setup page events writer message s)
    (inRange : setup.InRange page) :
    (s.machine writer).pageText setup page = message ↔
      (s.machine writer).addr (page * setup.pageSize + message.length) = 0 := by
  have room := Setup.page_le_rest inRange
  have fits := copy.text.2.2
  exact cString_eq_iff _ _ _ _ copy.held copy.text.2.1 (by omega)

theorem LastCopy.pageText_prefix (copy : LastCopy setup page events writer message s)
    (inRange : setup.InRange page) :
    ∃ tail, (s.machine writer).pageText setup page = message ++ tail := by
  have room := Setup.page_le_rest inRange
  have fits := copy.text.2.2
  exact ⟨_, cString_of_holds _ _ _ _ copy.held copy.text.2.1 (by omega)⟩

/-- What the receive buffer shows of a reply that begins with the message. -/
theorem LastCopy.reply_iff (copy : LastCopy setup page events writer message s)
    (inRange : setup.InRange page)
    (short : ((s.machine writer).pageText setup page).length < setup.pageSize)
    (buffer : Buffer) :
    cString (memcpy buffer 0 ((s.machine writer).pageText setup page)) 0 setup.pageSize =
        message ↔
      (s.machine writer).addr (page * setup.pageSize + message.length) = 0 ∧
        buffer message.length = 0 := by
  obtain ⟨tail, whole⟩ := copy.pageText_prefix inRange
  have nulFree : (0 : UInt8) ∉ (s.machine writer).pageText setup page :=
    cString_nulFree _ _ _
  have behind : memcpy buffer 0 message (0 + message.length) = buffer message.length := by
    rw [memcpy_outside _ _ _ (by omega), Int.zero_add]
  have exact_iff := cString_eq_iff (memcpy buffer 0 message) 0 setup.pageSize message
    (memcpy_holds _ _ _) copy.text.2.1 copy.text.2.2
  rw [behind] at exact_iff
  rw [← copy.pageText_iff inRange]
  constructor
  · intro shows
    have parts := shows
    rw [cString_of_holds _ 0 setup.pageSize _ (memcpy_holds _ _ _) nulFree (by omega),
      whole, List.append_assoc] at parts
    have noTail := List.append_eq_nil_iff.mp (List.append_right_eq_self.mp parts)
    have same : (s.machine writer).pageText setup page = message := by
      rw [whole, noTail.1, List.append_nil]
    rw [same] at shows
    exact ⟨same, exact_iff.mp shows⟩
  · intro premise
    obtain ⟨same, cleared⟩ := premise
    rw [same]
    exact exact_iff.mpr cleared

end Shown

private theorem shared_ne_invalid : MSIList.shared ≠ .invalid := by decide

/-- In a serial run from zeroed pages, an `r` on a page that has been written displays the
message written last exactly when `ShowsLast` holds before it. -/
theorem read_displays_last_write {setup : Setup} {start s final : System}
    {events rest : List Event} {outputs shown : List Output} {x writer : Host} {page : Int}
    {message : List UInt8} (initial : Initial setup start)
    (run : Run (step setup) (SerialText setup) start events outputs s) (settled : Settled s)
    (last : lastWrite page events = some (writer, message))
    (loops : ∀ event ∈ rest, event.Loop)
    (command : Run (step setup) (SerialText setup) s (.read x page :: rest) shown final)
    (done : Settled final) :
    displayed shown = [(x, message)] ↔ ShowsLast setup s x page writer message := by
  obtain ⟨copied, agreed⟩ := serial_copied initial run
  have agrees := agreed settled
  obtain ⟨_next, _first, _remaining, admitted, _accepted, _later, _shown⟩ := command.uncons
  have inRange : setup.InRange page := admitted.1
  have copy := copied.copies page writer message inRange last
  have oneHot := copied.table x page inRange
  have entries := agrees.entries
  have line := line_of_lastStore copy.stored
  rcases Host.eq_or_eq_peer writer x with rfl | rfl
  · -- the last writer has the page in M or in S and reads its own copy
    have held : (s.machine x).listMSI page ≠ .invalid := by
      rw [entries x page inRange]
      rcases line with owned | shared
      · rw [owned, mode_owned_self]
        decide
      · rw [shared]
        exact shared_ne_invalid
    rw [displayed_of_hit settled inRange oneHot held loops command]
    unfold ShowsLast
    rw [← copy.pageText_iff inRange]
    simp
  · rcases line with owned | shared
    · -- the writer owns the page, so the reader misses on it
      have missing : (s.machine writer.peer).listMSI page = .invalid := by
        rw [entries writer.peer page inRange, owned, mode_owned_other (Host.peer_ne writer)]
        rfl
      have modified : (s.machine writer.peer.peer).listMSI page = .modified := by
        rw [Host.peer_peer, entries writer page inRange, owned, mode_owned_self]
        rfl
      have unread : s.replies writer.peer = [] := by
        have owed := copied.owed writer.peer
        rw [(settled writer.peer).1] at owed
        exact owed.idle_inv.2
      have short : ((s.machine writer).pageText setup page).length < setup.pageSize := by
        have positive := setup.pageSize_pos
        have bounded := cString_length_le_of_nul (s.machine writer).addr
          (page * setup.pageSize) (setup.rest (page * setup.pageSize)) (setup.pageSize - 1)
          (copied.terminated writer page inRange)
        unfold Machine.pageText
        omega
      have shows := displayed_of_miss settled inRange missing modified unread
        (by rw [Host.peer_peer]; omega) loops command done
      rw [Host.peer_peer] at shows
      rw [shows]
      unfold ShowsLast
      have reply := copy.reply_iff inRange short (s.machine writer.peer).recvMessage
      simp only [List.cons.injEq, Prod.mk.injEq, true_and, and_true, reply, missing,
        Host.peer_ne, false_or]
    · -- both have the page in S, and the reader's copy is empty
      have held : (s.machine writer.peer).listMSI page ≠ .invalid := by
        rw [entries writer.peer page inRange, shared]
        exact shared_ne_invalid
      have empty : (s.machine writer.peer).pageText setup page = [] :=
        cString_of_nul _ _ _ (copy.blank shared)
      rw [displayed_of_hit settled inRange oneHot held loops command, empty]
      have different : ([] : List UInt8) ≠ message := Ne.symm copy.text.1
      unfold ShowsLast
      simp [held, different]

def oneWrite : List Event := [.write .one 0 [97], .serve .two]

private theorem oneWrite_run : (play (SerialText twoPages) oneWrite).isSome = true := by
  decide

def firstFetch : List Event := [.serve .one, .receive .two]

private theorem firstFetch_run :
    (execute (step twoPages) (fun s event => decide (SerialText twoPages s event))
      (reached _ oneWrite oneWrite_run) (.read .two 0 :: firstFetch)).isSome = true := by
  decide

theorem read_displays_last_write_firstFetch :
    displayed ((execute (step twoPages) (fun s event => decide (SerialText twoPages s event))
        (reached _ oneWrite oneWrite_run) (.read .two 0 :: firstFetch)).get
          firstFetch_run).2 = [(.two, [97])] ↔
      ShowsLast twoPages (reached _ oneWrite oneWrite_run) .two 0 .one [97] :=
  read_displays_last_write (freshSystem_initial twoPages)
    (play_run _ oneWrite oneWrite_run) (by decide) rfl (by simp [firstFetch, Event.Loop])
    ((Run.of_executes _ firstFetch_run).weaken
      (fun _ _ checked => of_decide_eq_true checked)) (by decide)

def fetchedOnce : List Event := oneWrite ++ .read .two 0 :: firstFetch

private theorem fetchedOnce_run : (play (SerialText twoPages) fetchedOnce).isSome = true := by
  decide

private theorem secondRead_run :
    (execute (step twoPages) (fun s event => decide (SerialText twoPages s event))
      (reached _ fetchedOnce fetchedOnce_run) [.read .two 0]).isSome = true := by
  decide

/-- The second read of a fetched page displays an empty page. -/
theorem read_displays_last_write_fails :
    ¬ ∀ (setup : Setup) (start s final : System) (events rest : List Event)
      (outputs shown : List Output) (x writer : Host) (page : Int) (message : List UInt8),
      Initial setup start → Run (step setup) (SerialText setup) start events outputs s →
      Settled s → lastWrite page events = some (writer, message) →
      (∀ event ∈ rest, event.Loop) →
      Run (step setup) (SerialText setup) s (.read x page :: rest) shown final →
      Settled final → displayed shown = [(x, message)] := by
  intro general
  have shows := general twoPages _ _ _ fetchedOnce [] _ _ .two .one 0 [97]
    (freshSystem_initial twoPages) (play_run _ fetchedOnce fetchedOnce_run) (by decide) rfl
    (by simp)
    ((Run.of_executes _ secondRead_run).weaken
      (fun _ _ checked => of_decide_eq_true checked)) (by decide)
  exact absurd shows (by decide)

end LKP.Dsm
