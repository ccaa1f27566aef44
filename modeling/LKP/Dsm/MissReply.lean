import LKP.Dsm.SingleWriter

/-
Every read miss is answered exactly once.

A struct whose read signal for its own page is on is answered from M and from I.
The receive loop has no branch for it in S, where it sends nothing; a write in M
can carry a stale read signal and be answered although nobody waits; and an empty
page is answered with no bytes at all.  Apart from these three the reader's side of
the connection is always in one of three phases.
-/

set_option autoImplicit false

namespace LKP.Dsm

open TransitionRun CBuffer

def ProcInfo.asks (data : ProcInfo) : Bool := decide (data.readSignal data.pageNum = 1)

theorem ProcInfo.asks_iff (data : ProcInfo) :
    data.asks = true ↔ data.readSignal data.pageNum = 1 := decide_eq_true_iff

/-- The connection of one menu: nothing asked and nothing unread, a request for the awaited
page in flight, or an answered request.  What an answer may be is left to `fit`. -/
inductive Owed (fit : List UInt8 → Prop) :
    Option (Int × Menu) → List ProcInfo → List UInt8 → Prop
  | idle {structs : List ProcInfo} :
      structs.countP ProcInfo.asks = 0 → Owed fit none structs []
  | asked {blocked : Int × Menu} {structs : List ProcInfo} :
      structs.countP ProcInfo.asks = 1 →
      (∀ data ∈ structs, data.asks = true → data.pageNum = blocked.1) →
      Owed fit (some blocked) structs []
  | answered {blocked : Int × Menu} {structs : List ProcInfo} {text : List UInt8} :
      structs.countP ProcInfo.asks = 0 → fit text → Owed fit (some blocked) structs text

def AllOwed (fit : List UInt8 → Prop) (s : System) : Prop :=
  ∀ x, Owed fit (s.machine x).menu.awaiting (s.inbox x.peer) (s.replies x)

theorem Initial.allOwed {setup : Setup} {s : System} (initial : Initial setup s)
    (fit : List UInt8 → Prop) : AllOwed fit s := by
  intro x
  rw [initial.prompt x, initial.inboxEmpty, initial.repliesEmpty]
  exact .idle rfl

section Phases

variable {fit : List UInt8 → Prop} {structs rest : List ProcInfo} {data : ProcInfo}
variable {unread : List UInt8}

theorem Owed.idle_inv (owed : Owed fit none structs unread) :
    structs.countP ProcInfo.asks = 0 ∧ unread = [] := by
  cases owed with
  | idle none => exact ⟨none, rfl⟩

theorem Owed.blocked_inv {blocked : Int × Menu}
    (owed : Owed fit (some blocked) structs unread) (available : unread ≠ []) :
    structs.countP ProcInfo.asks = 0 ∧ fit unread := by
  cases owed with
  | asked _one _named => exact absurd rfl available
  | answered none fits => exact ⟨none, fits⟩

/-- A request in flight means that its menu is blocked on that page with nothing to read. -/
theorem Owed.request_inv {blocked : Option (Int × Menu)}
    (owed : Owed fit blocked structs unread) (member : data ∈ structs)
    (asks : data.asks = true) :
    (∃ next, blocked = some (data.pageNum, next)) ∧ unread = [] := by
  have some : 0 < structs.countP ProcInfo.asks :=
    List.countP_pos_iff.mpr ⟨data, member, asks⟩
  cases owed with
  | idle none => omega
  | asked _one named =>
      rename_i blocked
      have page := named data member asks
      exact ⟨⟨blocked.2, by rw [page]⟩, rfl⟩
  | answered none _fits => omega

theorem Owed.post_other {blocked : Option (Int × Menu)}
    (owed : Owed fit blocked structs unread) (silent : data.asks = false) :
    Owed fit blocked (structs ++ [data]) unread := by
  have same : (structs ++ [data]).countP ProcInfo.asks = structs.countP ProcInfo.asks := by
    rw [List.countP_append, List.countP_singleton, if_neg (by rw [silent]; decide),
      Nat.add_zero]
  cases owed with
  | idle none => exact .idle (same.trans none)
  | asked one named =>
      refine .asked (same.trans one) ?_
      intro posted member asks
      rcases List.mem_append.mp member with earlier | new
      · exact named posted earlier asks
      · rw [List.mem_singleton.mp new, silent] at asks
        cases asks
  | answered none fits => exact .answered (same.trans none) fits

theorem Owed.post_request {blocked : Int × Menu} (owed : Owed fit none structs unread)
    (asks : data.asks = true) (named : data.pageNum = blocked.1) :
    Owed fit (some blocked) (structs ++ [data]) unread := by
  obtain ⟨none, rfl⟩ := owed.idle_inv
  apply Owed.asked
  · rw [List.countP_append, List.countP_singleton, if_pos asks, none]
  · intro posted member postedAsks
    rcases List.mem_append.mp member with earlier | new
    · exact absurd postedAsks (List.countP_eq_zero.mp none posted earlier)
    · rw [List.mem_singleton.mp new]
      exact named

theorem Owed.serve_other {blocked : Option (Int × Menu)}
    (owed : Owed fit blocked (data :: rest) unread) (silent : data.asks = false) :
    Owed fit blocked rest unread := by
  have same : (data :: rest).countP ProcInfo.asks = rest.countP ProcInfo.asks :=
    List.countP_cons_of_neg (by rw [silent]; decide)
  cases owed with
  | idle none => exact .idle (same.symm.trans none)
  | asked one named =>
      exact .asked (same.symm.trans one)
        (fun later member => named later (List.mem_cons_of_mem _ member))
  | answered none fits => exact .answered (same.symm.trans none) fits

theorem Owed.serve_request {blocked : Option (Int × Menu)} {text : List UInt8}
    (owed : Owed fit blocked (data :: rest) unread) (asks : data.asks = true)
    (fits : fit text) : Owed fit blocked rest (unread ++ text) := by
  have one : (data :: rest).countP ProcInfo.asks = rest.countP ProcInfo.asks + 1 :=
    List.countP_cons_of_pos asks
  cases owed with
  | idle none => omega
  | asked single _named => exact .answered (by omega) fits
  | answered none _fits => omega

end Phases

theorem System.answer_of_silent {setup : Setup} {s : System} {x : Host}
    {recvData : ProcInfo} (silent : recvData.asks = false) :
    s.answer setup x recvData = none := by
  apply serverReply_of_read_off
  intro on
  rw [recvData.asks_iff.mpr on] at silent
  cases silent

theorem writeRequest_silent {setup : Setup} {s : System} {x : Host} {page : Int}
    (oneHot : ((s.machine x).listMSI page).OneHot)
    (clean : (s.machine x).listMSI page = .modified →
      (s.machine x).tempData.readSignal page ≠ 1) :
    (writeRequest setup ((s.machine x).listMSI page) page (s.machine x).tempData).asks =
      false := by
  apply decide_eq_false
  rw [writeRequest_pageNum]
  by_cases owned : (s.machine x).listMSI page = .modified
  · rw [owned, writeRequest_modified]
    exact clean owned
  · rw [writeRequest_readSignal_off setup oneHot owned]
    decide

/-- The phases are kept when writes ask for nothing and answers are fit to be read whole. -/
theorem Move.allOwed {setup : Setup} {s after : System} {event : Event}
    {shown : List Output} {fit : List UInt8 → Prop}
    (move : Move setup s event after shown)
    (whole : ∀ text, fit text → text.length ≤ setup.pageSize)
    (clean : CleanWrite s event)
    (answers : ∀ x recvData, event = .serve x → recvData ∈ (s.inbox x).head? →
      recvData.asks = true → fit ((s.answer setup x recvData).getD []))
    (table : OneHotTable setup s) (before : AllOwed fit s) : AllOwed fit after := by
  cases move with
  | hit x page shown ready _inRange _held =>
      intro z
      have earlier := before z
      rcases Host.eq_or_eq_peer x z with rfl | rfl
      · rw [ready] at earlier
        rw [System.put_machine_self]
        exact earlier
      · rw [System.put_machine_peer]
        exact earlier
  | miss x page ready _inRange _absent =>
      intro z
      have earlier := before z
      rcases Host.eq_or_eq_peer x z with rfl | rfl
      · rw [ready] at earlier
        rw [System.post_machine, System.put_machine_self, System.post_inbox_peer]
        exact earlier.post_request (ProcInfo.asks_iff _ |>.mpr (readRequest_readSignal ..))
          rfl
      · rw [System.post_machine, System.put_machine_peer, Host.peer_peer,
          System.post_inbox_self]
        rw [Host.peer_peer] at earlier
        exact earlier
  | write x page message ready inRange =>
      intro z
      have earlier := before z
      rcases Host.eq_or_eq_peer x z with rfl | rfl
      · rw [ready] at earlier
        rw [System.post_machine, System.put_machine_self, System.post_inbox_peer]
        exact earlier.post_other (writeRequest_silent (table z page inRange) clean)
      · rw [System.post_machine, System.put_machine_peer, Host.peer_peer,
          System.post_inbox_self]
        rw [Host.peer_peer] at earlier
        exact earlier
  | receive x index next text waiting available =>
      intro z
      have earlier := before z
      rcases Host.eq_or_eq_peer x z with rfl | rfl
      · rw [waiting] at earlier
        rw [System.put_machine_self, System.put_inbox, System.unread_inbox,
          System.put_replies, System.unread_replies_self, menuReceive_menu]
        have unblocked : next.awaiting = none := by
          unfold Menu.awaiting at waiting
          split at waiting <;> cases waiting <;> rfl
        obtain ⟨none, fits⟩ := earlier.blocked_inv available
        rw [unblocked, List.drop_eq_nil_of_le (whole _ fits)]
        exact .idle none
      · rw [System.put_machine_peer, System.put_inbox, System.unread_inbox,
          System.put_replies, System.unread_replies_peer]
        exact earlier
  | serve x recvData rest oldest =>
      intro z
      have earlier := before z
      rcases Host.eq_or_eq_peer x z with rfl | rfl
      · rw [System.serve_machine_self, System.serve_inbox_peer, System.serve_replies_self]
        exact earlier
      · -- the menu whose struct is served
        rw [Host.peer_peer, oldest] at earlier
        rw [System.serve_machine_peer, Host.peer_peer, System.serve_inbox_self,
          System.serve_replies_peer]
        cases asks : recvData.asks with
        | false =>
            rw [System.answer_of_silent asks, Option.getD_none, List.append_nil]
            exact earlier.serve_other asks
        | true =>
            exact earlier.serve_request asks
              (answers x recvData rfl (by rw [oldest]; rfl) asks)

/-! ### Answered exactly once -/

def Machine.flushText (setup : Setup) (recvData : ProcInfo) (machine : Machine) :
    List UInt8 :=
  cString machine.addr recvData.accessPage (setup.rest recvData.accessPage)

/-- Writes in M find the read signal off, and a read request finds its page in I, or in M
with a string on it that is not empty and fits the page. -/
def Answerable (setup : Setup) (s : System) : Event → Prop
  | .serve x =>
      ∀ recvData ∈ (s.inbox x).head?, recvData.asks = true →
        (s.machine x).listMSI recvData.pageNum ≠ .shared ∧
          ((s.machine x).listMSI recvData.pageNum = .modified →
            (s.machine x).flushText setup recvData ≠ [] ∧
              ((s.machine x).flushText setup recvData).length ≤ setup.pageSize)
  | event => CleanWrite s event

instance (setup : Setup) (s : System) (event : Event) :
    Decidable (Answerable setup s event) :=
  match event with
  | .serve _ => inferInstanceAs (Decidable (∀ _ ∈ _, _))
  | .read x page => inferInstanceAs (Decidable (CleanWrite s (.read x page)))
  | .write x page message => inferInstanceAs (Decidable (CleanWrite s (.write x page message)))
  | .select x page => inferInstanceAs (Decidable (CleanWrite s (.select x page)))
  | .enter x message => inferInstanceAs (Decidable (CleanWrite s (.enter x message)))
  | .iterate x => inferInstanceAs (Decidable (CleanWrite s (.iterate x)))
  | .receive x => inferInstanceAs (Decidable (CleanWrite s (.receive x)))

def Readable (setup : Setup) (text : List UInt8) : Prop :=
  text ≠ [] ∧ text.length ≤ setup.pageSize

/-- A request that finds its page in I or in M is answered with something to read. -/
theorem System.answer_of_asks {setup : Setup} {s : System} {x : Host} {recvData : ProcInfo}
    (oneHot : ((s.machine x).listMSI recvData.pageNum).OneHot) (asks : recvData.asks = true)
    (unshared : (s.machine x).listMSI recvData.pageNum ≠ .shared)
    (flushes : (s.machine x).listMSI recvData.pageNum = .modified →
      (s.machine x).flushText setup recvData ≠ [] ∧
        ((s.machine x).flushText setup recvData).length ≤ setup.pageSize) :
    Readable setup ((s.answer setup x recvData).getD []) := by
  have on := recvData.asks_iff.mp asks
  unfold System.answer
  rcases oneHot with modified | shared | invalid
  · rw [modified, serverReply_modified, if_pos on]
    exact flushes modified
  · exact absurd shared unshared
  · rw [invalid, serverReply_invalid, if_pos on]
    exact ⟨by decide, setup.pageSize_pos⟩

theorem Answerable.clean {setup : Setup} {s : System} {event : Event}
    (answerable : Answerable setup s event) : CleanWrite s event := by
  cases event with
  | serve x => trivial
  | read x page => exact answerable
  | write x page message => exact answerable
  | select x page => exact answerable
  | enter x message => exact answerable
  | iterate x => exact answerable
  | receive x => exact answerable

theorem Move.readable {setup : Setup} {s after : System} {event : Event}
    {shown : List Output} (move : Move setup s event after shown)
    (answerable : Answerable setup s event) (table : OneHotTable setup s)
    (names : NamesPages setup s) (before : AllOwed (Readable setup) s) :
    AllOwed (Readable setup) after := by
  refine move.allOwed (fun _ readable => readable.2) answerable.clean ?_ table before
  rintro x recvData rfl oldest asks
  obtain ⟨unshared, flushes⟩ := answerable recvData oldest asks
  have member : recvData ∈ s.inbox x := List.mem_of_mem_head? oldest
  exact System.answer_of_asks (table x _ (names x recvData member).1) asks unshared flushes

/-- In a run of single commands in which every read request finds its page in I, or in M
with a string to send, and no write in M sends a stale read signal: with nothing in
flight no menu is blocked on an empty channel and no idle one has bytes to read. -/
theorem misses_answered_once {setup : Setup} {start final : System} {events : List Event}
    {outputs : List Output} (initial : Initial setup start)
    (run : Run (step setup) (fun s event => event.Single setup ∧ Answerable setup s event)
      start events outputs final)
    (drained : Drained final) (x : Host) :
    ((final.machine x).menu.awaiting ≠ none → final.replies x ≠ []) ∧
      ((final.machine x).menu.awaiting = none → final.replies x = []) := by
  have invariant :
      OneHotTable setup final ∧ NamesPages setup final ∧ AllOwed (Readable setup) final := by
    refine run.invariant
      (fun s => OneHotTable setup s ∧ NamesPages setup s ∧ AllOwed (Readable setup) s)
      ⟨initial.oneHot, initial.namesPages, initial.allOwed _⟩ ?_
    rintro before event after shown ⟨table, names, owed⟩ ⟨single, answerable⟩ accepted
    have move := Move.of_step single accepted
    exact ⟨move.oneHot table, move.namesPages names,
      move.readable answerable table names owed⟩
  have owed := invariant.2.2 x
  rw [drained x.peer] at owed
  generalize (final.machine x).menu.awaiting = blocked at owed ⊢
  generalize final.replies x = unread at owed ⊢
  cases owed with
  | idle _none => exact ⟨fun waiting => absurd rfl waiting, fun _ => rfl⟩
  | asked one _named => cases one
  | answered _none readable =>
      exact ⟨fun _ => readable.1, fun idle => absurd idle (Option.some_ne_none _)⟩

def writeThenMiss : List Event :=
  [.write .one 0 [97], .serve .two, .read .two 0, .serve .one]

private theorem writeThenMiss_run :
    (play (fun s event => event.Single twoPages ∧ Answerable twoPages s event)
      writeThenMiss).isSome = true := by
  decide

theorem misses_answered_once_writeThenMiss :
    (((reached _ writeThenMiss writeThenMiss_run).machine .two).menu.awaiting ≠ none →
        (reached _ writeThenMiss writeThenMiss_run).replies .two ≠ []) ∧
      (((reached _ writeThenMiss writeThenMiss_run).machine .two).menu.awaiting = none →
        (reached _ writeThenMiss writeThenMiss_run).replies .two = []) :=
  misses_answered_once (freshSystem_initial twoPages)
    (play_run _ writeThenMiss writeThenMiss_run) (drained_of_hosts rfl rfl) .two

/-- Both machines miss on page 0; each request finds the page in S. -/
def crossingMisses : List Event :=
  [.read .one 0, .read .two 0, .serve .one, .serve .two]

private theorem crossingMisses_run :
    (play (fun _ event => event.Single twoPages) crossingMisses).isSome = true := by decide

theorem misses_answered_once_fails :
    ¬ ∀ (setup : Setup) (start final : System) (events : List Event) (outputs : List Output),
      Initial setup start → Interleaved setup start events outputs final → Drained final →
      ∀ x, ((final.machine x).menu.awaiting ≠ none → final.replies x ≠ []) ∧
        ((final.machine x).menu.awaiting = none → final.replies x = []) := by
  intro general
  have answered := (general twoPages _ _ _ _ (freshSystem_initial twoPages)
    (play_run _ crossingMisses crossingMisses_run) (drained_of_hosts rfl rfl) .one).1
    (by decide)
  exact answered rfl

end LKP.Dsm
