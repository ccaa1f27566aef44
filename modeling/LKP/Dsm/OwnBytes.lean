import LKP.Dsm.Network

/-
No byte of one machine ever gets into the region of the other.

Structs carry signals and page numbers, replies are displayed from `recv_message`, and
nothing copies either into the region.  What the region of a machine holds beside zeros
was typed at that machine, under every interleaving of the two menus and receive loops,
with both kinds of command and with receipts between the two prompts of a `w`.
-/

set_option autoImplicit false

namespace LKP.Dsm

open TransitionRun CBuffer

def Event.typed (x : Host) : Event → List (List UInt8)
  | .write z _ message | .enter z message => if z = x then [message] else []
  | _ => []

def typed (x : Host) (events : List Event) : List (List UInt8) :=
  events.flatMap (Event.typed x)

theorem typed_append (x : Host) (events : List Event) (event : Event) :
    typed x (events ++ [event]) = typed x events ++ event.typed x := by
  simp only [typed, List.flatMap_append, List.flatMap_cons, List.flatMap_nil, List.append_nil]

def InMessages (messages : List (List UInt8)) (byte : UInt8) : Prop :=
  ∃ message ∈ messages, byte ∈ strBytes message

/-- The region holds zeros and bytes of the messages, and so does what a loop is writing. -/
structure Machine.Own (messages : List (List UInt8)) (machine : Machine) : Prop where
  bytes : ∀ offset, machine.addr offset = 0 ∨ InMessages messages (machine.addr offset)
  writes : ∀ count message, machine.menu = .writeAll count message → message ∈ messages

section Buffers

variable {messages : List (List UInt8)} {buffer : Buffer}

theorem InMessages.more {byte : UInt8} (typed : InMessages messages byte)
    (extra : List (List UInt8)) : InMessages (messages ++ extra) byte := by
  obtain ⟨message, member, within⟩ := typed
  exact ⟨message, List.mem_append_left _ member, within⟩

theorem memset_own (own : ∀ offset, buffer offset = 0 ∨ InMessages messages (buffer offset))
    (start : Int) (length : Nat) (offset : Int) :
    memset buffer start 0 length offset = 0 ∨
      InMessages messages (memset buffer start 0 length offset) := by
  unfold memset
  split
  · exact .inl rfl
  · exact own offset

theorem memcpy_own (own : ∀ offset, buffer offset = 0 ∨ InMessages messages (buffer offset))
    (start : Int) {message : List UInt8} (member : message ∈ messages) (offset : Int) :
    memcpy buffer start (strBytes message) offset = 0 ∨
      InMessages messages (memcpy buffer start (strBytes message) offset) := by
  unfold memcpy
  split
  · rename_i inside
    right
    refine ⟨message, member, ?_⟩
    have within : (offset - start).toNat < (strBytes message).length := by omega
    rw [List.getD_eq_getElem _ _ within]
    exact List.getElem_mem within
  · exact own offset

end Buffers

section Functions

variable {setup : Setup} {messages : List (List UInt8)} {machine : Machine}

theorem Machine.Own.more (own : machine.Own messages) (extra : List (List UInt8)) :
    machine.Own (messages ++ extra) where
  bytes offset := (own.bytes offset).imp_right (fun typed => typed.more extra)
  writes count message place := List.mem_append_left _ (own.writes count message place)

/-- A change that neither the region nor a loop over all pages of a `w` sees. -/
theorem Machine.Own.of_region (own : machine.Own messages) {after : Machine}
    (region : after.addr = machine.addr)
    (elsewhere : ∀ count message, after.menu = .writeAll count message →
      machine.menu = .writeAll count message) : after.Own messages where
  bytes := by
    rw [region]
    exact own.bytes
  writes count message place := own.writes count message (elsewhere count message place)

theorem menuReadPage_own (own : machine.Own messages) (index : Int) {held waiting : Menu}
    (heldElsewhere : ∀ count message, held ≠ .writeAll count message)
    (waitingElsewhere : ∀ count message, waiting ≠ .writeAll count message) :
    (menuReadPage setup index held waiting machine).1.Own messages := by
  unfold menuReadPage
  simp only []
  split
  · refine ⟨memset_own own.bytes _ _, ?_⟩
    intro count message place
    exact absurd place (waitingElsewhere count message)
  · split
    · exact own.of_region rfl (fun count message place =>
        absurd place (heldElsewhere count message))
    · exact own.of_region rfl (fun count message place =>
        absurd place (heldElsewhere count message))

theorem menuRead_own (own : machine.Own messages) (page : Int) :
    (menuRead setup page machine).1.Own messages := by
  unfold menuRead
  simp only []
  split
  · exact own.of_region rfl (fun _ _ place => Menu.noConfusion place)
  · apply menuReadPage_own
    · exact ⟨own.bytes, own.writes⟩
    · exact fun _ _ => Menu.noConfusion
    · exact fun _ _ => Menu.noConfusion

theorem menuReadAll_own (own : machine.Own messages) (count : Int) :
    (menuReadAll setup count machine).1.Own messages := by
  unfold menuReadAll
  split
  · apply menuReadPage_own
    · exact ⟨own.bytes, own.writes⟩
    · exact fun _ _ => Menu.noConfusion
    · exact fun _ _ => Menu.noConfusion
  · exact own.of_region rfl (fun _ _ place => Menu.noConfusion place)

theorem menuWriteSelect_own (own : machine.Own messages) (page : Int) :
    (menuWriteSelect setup page machine).Own messages := by
  unfold menuWriteSelect
  simp only []
  split
  · exact own.of_region rfl (fun _ _ place => Menu.noConfusion place)
  · exact own.of_region rfl (fun _ _ place => Menu.noConfusion place)

theorem menuWriteMessage_own (own : machine.Own messages) (message : List UInt8) :
    (menuWriteMessage message machine).1.Own (messages ++ [message]) := by
  have wider := own.more [message]
  have last : message ∈ messages ++ [message] := List.mem_append_right _ List.mem_cons_self
  cases place : machine.menu with
  | message =>
      simp only [menuWriteMessage, place]
      refine ⟨memcpy_own wider.bytes _ last, ?_⟩
      intro count written here
      cases here
  | messageAll =>
      simp only [menuWriteMessage, place]
      refine ⟨wider.bytes, ?_⟩
      intro count written here
      cases here
      exact last
  | _ =>
      simp only [menuWriteMessage, place]
      exact wider

theorem menuWriteAll_own (own : machine.Own messages) {count : Int} {message : List UInt8}
    (place : machine.menu = .writeAll count message) :
    (menuWriteAll setup count message machine).1.Own messages := by
  have member := own.writes count message place
  unfold menuWriteAll
  split
  · refine ⟨memcpy_own own.bytes _ member, ?_⟩
    intro next written here
    cases here
    exact member
  · exact own.of_region rfl (fun _ _ here => Menu.noConfusion here)

end Functions

/-! ### Every run -/

def AllOwn (events : List Event) (s : System) : Prop :=
  ∀ x, (s.machine x).Own (typed x events)

section Steps

variable {setup : Setup} {s after : System} {events : List Event} {event : Event}
variable {shown : List Output}

private theorem own_apply (own : AllOwn events s) {z : Host} {result : Machine × MenuEffect}
    (moved : result.1.Own (typed z (events ++ [event]))) :
    AllOwn (events ++ [event]) (s.apply z result).1 := by
  intro x
  rcases Host.eq_or_eq_peer z x with rfl | rfl
  · rw [System.apply_machine_self]
    exact moved
  · rw [System.apply_machine_peer, typed_append]
    exact (own _).more _

theorem AllOwn.step (own : AllOwn events s) (accepted : step setup s event = some (after, shown)) :
    AllOwn (events ++ [event]) after := by
  have silent : ∀ z, event.typed z = [] → typed z (events ++ [event]) = typed z events := by
    intro z none
    rw [typed_append, none, List.append_nil]
  cases Performs.of_step accepted with
  | read x page _ready =>
      apply own_apply own
      rw [silent x rfl]
      exact menuRead_own (own x) page
  | write x page message _ready =>
      apply own_apply own
      rw [typed_append, Event.typed, if_pos rfl]
      exact menuWriteMessage_own (menuWriteSelect_own (own x) page) message
  | select x page _ready =>
      apply own_apply own
      rw [silent x rfl]
      exact menuWriteSelect_own (own x) page
  | enter x message _place =>
      apply own_apply own
      rw [typed_append, Event.typed, if_pos rfl]
      exact menuWriteMessage_own (own x) message
  | readAll x count _place =>
      apply own_apply own
      rw [silent x rfl]
      exact menuReadAll_own (own x) count
  | writeAll x count message place =>
      apply own_apply own
      rw [silent x rfl]
      exact menuWriteAll_own (own x) place
  | receive x index next waiting _available =>
      have unread : AllOwn events (s.unread x ((s.replies x).drop setup.pageSize)) := own
      apply own_apply unread
      rw [silent x rfl]
      refine (own x).of_region (menuReceive_addr ..) ?_
      intro count message place
      change next = _ at place
      rw [place] at waiting
      unfold Menu.awaiting at waiting
      split at waiting <;> cases waiting
  | serve x recvData rest _oldest =>
      intro z
      rw [silent z rfl]
      rcases Host.eq_or_eq_peer x z with rfl | rfl
      · rw [System.serve_machine_self]
        exact (own z).of_region rfl (fun _ _ place => place)
      · rw [System.serve_machine_peer]
        exact own _

end Steps

/-- In every state that any run reaches, whatever the two menus and the two receive loops
do and in whatever order, each byte of a machine's region is zero or comes from a message
that was typed at that machine. -/
theorem region_holds_typed {setup : Setup} {allowed : System → Event → Prop}
    {start final : System} {events : List Event} {outputs : List Output}
    (initial : Initial setup start) (run : Run (step setup) allowed start events outputs final)
    (x : Host) (offset : Int) :
    (final.machine x).addr offset = 0 ∨
      ∃ message ∈ typed x events, (final.machine x).addr offset ∈ strBytes message := by
  have own : AllOwn events final := by
    refine run.history_invariant (fun past _ s => AllOwn past s) ?_
      (fun _ _ _ _ _ _ own _ accepted => own.step accepted)
    intro z
    refine ⟨fun place => .inl (initial.zero z place), ?_⟩
    intro count message place
    rw [initial.prompt z] at place
    cases place
  exact (own x).bytes offset

/-! ### A page that was fetched -/

def Machine.Blank (setup : Setup) (page : Int) (machine : Machine) : Prop :=
  ∀ offset : Int, page * setup.pageSize ≤ offset →
    offset < page * setup.pageSize + setup.pageSize → machine.addr offset = 0

/-- Machine `x` does not write the page, and what it writes elsewhere fits a page. -/
def Event.Spares (setup : Setup) (x : Host) (page : Int) : Event → Prop
  | .write z index message =>
      z = x → index ≠ page ∧ (strBytes message).length ≤ setup.pageSize
  | _ => True

instance (setup : Setup) (x : Host) (page : Int) (event : Event) :
    Decidable (event.Spares setup x page) :=
  match event with
  | .write _ _ _ => inferInstanceAs (Decidable (_ → _))
  | .read _ _ | .select _ _ | .enter _ _ | .iterate _ | .receive _ | .serve _ =>
      inferInstanceAs (Decidable True)

section Fetched

variable {setup : Setup} {x : Host} {page : Int} {s after : System} {event : Event}
variable {shown : List Output}

theorem afterMiss_blank (index : Int) (next : Menu) {machine : Machine}
    (blank : page = index ∨ machine.Blank setup page) :
    (machine.afterMiss setup index next).Blank setup page := by
  intro offset lower upper
  rw [afterMiss_addr]
  rcases blank with rfl | blank
  · exact memset_inside _ _ _ _ lower upper
  · unfold memset
    split
    · rfl
    · exact blank offset lower upper

theorem Move.blank (move : Move setup s event after shown)
    (spares : event.Spares setup x page) (blank : (s.machine x).Blank setup page) :
    (after.machine x).Blank setup page := by
  rcases Host.eq_or_eq_peer event.host x with own | other
  · subst own
    cases move with
    | hit z index shown _ready _inRange _held =>
        simp only [Event.host, System.put_machine_self]
        exact blank
    | miss z index _ready _inRange _absent =>
        simp only [Event.host, System.post_machine, System.put_machine_self]
        exact afterMiss_blank index _ (.inr blank)
    | write z index message _ready _inRange =>
        obtain ⟨different, fits⟩ := spares rfl
        simp only [Event.host, System.post_machine, System.put_machine_self]
        intro offset lower upper
        rw [afterWrite_addr_other setup (Ne.symm different) message fits _ _ lower upper]
        exact blank offset lower upper
    | receive z index next text _waiting _available =>
        simp only [Event.host, System.put_machine_self]
        exact blank
    | serve z recvData rest _oldest =>
        simp only [Event.host, System.serve_machine_self]
        exact blank
  · subst other
    rw [move.machine_peer]
    exact blank

/-- A single `r` that shows a page from the region shows what the page holds. -/
theorem read_shows (inRange : setup.InRange page)
    (accepted : step setup s (.read x page) = some (after, shown)) {text : List UInt8}
    (displays : .displayed x text ∈ shown) : text = (s.machine x).pageText setup page := by
  cases Performs.of_step accepted with
  | read _ _ _ready =>
      rw [menuRead_inRange inRange] at displays
      unfold Machine.pageRead at displays
      split at displays
      · simp [System.apply] at displays
      · split at displays
        · simpa [System.apply] using displays
        · simp [System.apply] at displays

/-- After a read miss on a page, until its machine writes it, every `r` that is answered
from the region displays the empty string, whatever was fetched and whatever the peer does
in the meantime. -/
theorem fetched_page_reads_empty {later : List Event} {outputs : List Output} {final : System}
    (inRange : setup.InRange page) (absent : ((s.machine x).listMSI page).I = true)
    (run : Run (step setup) (fun _ event => event.Single setup ∧ event.Spares setup x page) s
      (.read x page :: later) outputs final)
    (accepted : step setup final (.read x page) = some (after, shown)) {text : List UInt8}
    (displays : .displayed x text ∈ shown) : text = [] := by
  obtain ⟨missed, _shown, _remaining, _admitted, first, rest, _outputs⟩ := run.uncons
  have fetched : (missed.machine x).Blank setup page := by
    cases Performs.of_step first with
    | read _ _ _ready =>
        rw [menuRead_inRange inRange, Machine.pageRead, if_pos absent,
          System.apply_machine_self]
        exact afterMiss_blank page _ (.inl rfl)
  have blank : (final.machine x).Blank setup page := by
    refine rest.invariant (fun state => (state.machine x).Blank setup page) fetched ?_
    intro before event next said blank admitted moved
    exact (Move.of_step admitted.1 moved).blank admitted.2 blank
  have positive := setup.pageSize_pos
  rw [read_shows inRange accepted displays]
  exact cString_of_nul _ _ _ (blank _ (by omega) (by omega))

end Fetched

def fetchTwice : List Event :=
  [.select .two 1, .write .one 0 [97], .serve .two, .enter .two [98], .write .two 1 [99],
    .serve .one, .serve .one, .read .one 1, .serve .two, .receive .one]

private theorem fetchTwice_run : (play (fun _ _ => True) fetchTwice).isSome = true := by
  decide

theorem region_holds_typed_fetchTwice :
    ((reached _ fetchTwice fetchTwice_run).machine .one).addr 4096 = 0 ∨
      ∃ message ∈ typed .one fetchTwice,
        ((reached _ fetchTwice fetchTwice_run).machine .one).addr 4096 ∈ strBytes message :=
  region_holds_typed (freshSystem_initial twoPages) (play_run _ fetchTwice fetchTwice_run)
    .one 4096

private theorem written_run :
    (play (fun _ _ => True) [.write .two 0 [97], .serve .one]).isSome = true := by decide

private def fetch : Option (System × List Output) :=
  execute (step twoPages)
    (fun _ event => decide (event.Single twoPages ∧ event.Spares twoPages .one 0))
    (reached (fun _ _ => True) _ written_run)
    [.read .one 0, .serve .two, .receive .one, .write .one 1 [98], .serve .two]

private theorem fetch_run : fetch.isSome = true := by decide

private theorem again_accepted :
    (step twoPages (fetch.get fetch_run).1 (.read .one 0)).isSome = true := by decide

private theorem again_displays :
    Output.displayed .one (((fetch.get fetch_run).1.machine .one).pageText twoPages 0) ∈
      ((step twoPages (fetch.get fetch_run).1 (.read .one 0)).get again_accepted).2 :=
  List.mem_cons_self

theorem fetched_page_reads_empty_again :
    ((fetch.get fetch_run).1.machine .one).pageText twoPages 0 = [] :=
  fetched_page_reads_empty (by decide) (by decide)
    ((Run.of_executes _ fetch_run).weaken (fun _ _ checked => of_decide_eq_true checked))
    (Option.some_get again_accepted).symm again_displays

end LKP.Dsm
