import LKP.Dsm.WriteWindow

/-
What a reader displays of a reply.

An owner in M sends the `strlen` bytes of its page and no terminator, an owner in I
the one byte of " ".  The reader copies what comes to the front of `recv_message`,
which it never clears, and displays the string that starts there.
-/

set_option autoImplicit false

namespace LKP.Dsm

open TransitionRun CBuffer

/-- Anything may happen but the next receipt of the owner and the return of the
blocked `read` of `x`. -/
def Event.Between (x : Host) : Event → Prop
  | .serve z => z ≠ x.peer
  | .receive z => z ≠ x
  | _ => True

instance (x : Host) (event : Event) : Decidable (event.Between x) :=
  match event with
  | .serve _ | .receive _ => inferInstanceAs (Decidable (_ ≠ _))
  | .read _ _ | .write _ _ _ | .select _ _ | .enter _ _ | .iterate _ =>
      inferInstanceAs (Decidable True)

def Shows (setup : Setup) (x : Host) (text : List UInt8) (s : System) : Prop :=
  ∃ after, step setup s (.receive x) = some (after, [.displayed x text])

theorem shows_iff {setup : Setup} {s : System} {x : Host} {blocked : Int × Menu}
    {text : List UInt8} (waiting : (s.machine x).menu.awaiting = some blocked) :
    Shows setup x text s ↔
      s.replies x ≠ [] ∧
        cString (memcpy (s.machine x).recvMessage 0 ((s.replies x).take setup.pageSize)) 0
          setup.pageSize = text := by
  unfold Shows
  simp only [step, waiting]
  constructor
  · intro shown
    obtain ⟨after, accepted⟩ := shown
    split at accepted
    · cases accepted
    · rename_i available
      refine ⟨available, ?_⟩
      have outputs := congrArg Prod.snd (Option.some.inj accepted)
      simpa [System.apply, menuReceive] using outputs
  · intro both
    obtain ⟨available, same⟩ := both
    rw [if_neg available]
    subst same
    exact ⟨_, rfl⟩

/-! ### From the answer to the return of the `read` -/

/-- Until its `read` returns, the connection and the buffer of a blocked menu stay as they
are, whatever else the two machines do. -/
theorem Happens.blocked {setup : Setup} {s : System} {x : Host} {event : Event}
    {result : System × List Output} {blocked : Int × Menu}
    (happens : Happens setup s event result)
    (waiting : (s.machine x).menu.awaiting = some blocked) (between : event.Between x) :
    result.1.replies x = s.replies x ∧
      (result.1.machine x).recvMessage = (s.machine x).recvMessage ∧
      (result.1.machine x).menu = (s.machine x).menu := by
  have unmoved := happens.machine_peer
  cases happens with
  | menu result idle _other =>
      rcases Host.eq_or_eq_peer event.host x with own | peer
      · rw [own, idle] at waiting
        cases waiting
      · rw [← peer] at unmoved
        rw [System.apply_replies, unmoved]
        exact ⟨rfl, rfl, rfl⟩
  | receive z index next _waiting _available =>
      have peer := (Host.eq_or_eq_peer z x).resolve_left (fun same => between same.symm)
      subst peer
      simp only [Event.host] at unmoved
      rw [System.apply_replies, System.unread_replies_peer, unmoved]
      exact ⟨rfl, rfl, rfl⟩
  | serve z recvData rest _oldest =>
      have own : z = x := (Host.eq_or_eq_peer x z).resolve_right between
      subst own
      rw [System.serve_replies_self, System.serve_machine_self]
      exact ⟨rfl, rfl, rfl⟩

theorem blocked_frame {setup : Setup} {s after : System} {x : Host} {events : List Event}
    {outputs : List Output} {blocked : Int × Menu}
    (run : Run (step setup) (fun _ event => event.Between x) s events outputs after)
    (waiting : (s.machine x).menu.awaiting = some blocked) :
    after.replies x = s.replies x ∧
      (after.machine x).recvMessage = (s.machine x).recvMessage ∧
      (after.machine x).menu = (s.machine x).menu := by
  refine run.invariant (fun current => current.replies x = s.replies x ∧
    (current.machine x).recvMessage = (s.machine x).recvMessage ∧
    (current.machine x).menu = (s.machine x).menu) ⟨rfl, rfl, rfl⟩ ?_
  intro before event next shown same between accepted
  obtain ⟨replies, buffer, menu⟩ := same
  rw [← menu] at waiting
  obtain ⟨keptReplies, keptBuffer, keptMenu⟩ :=
    (Happens.of_step accepted).blocked waiting between
  exact ⟨keptReplies.trans replies, keptBuffer.trans buffer, keptMenu.trans menu⟩

/-! ### The answer to a miss -/

def Machine.EndsWithin (setup : Setup) (page : Int) (machine : Machine) : Prop :=
  ∃ offset : Nat, offset < setup.pageSize ∧
    machine.addr (page * setup.pageSize + offset) = 0

theorem pageText_fits {setup : Setup} {page : Int} {machine : Machine}
    (ends : machine.EndsWithin setup page) :
    (machine.pageText setup page).length < setup.pageSize := by
  obtain ⟨offset, within, nul⟩ := ends
  have bound := cString_length_le_of_nul machine.addr (page * setup.pageSize)
    (setup.rest (page * setup.pageSize)) offset nul
  exact Nat.lt_of_le_of_lt bound within

section Answered

variable {setup : Setup} {s : System} {x : Host} {page : Int} {data : ProcInfo}

theorem answer_of_modified (owned : (s.machine x).listMSI page = .modified) :
    s.answer setup x (readRequest setup page data) =
      some ((s.machine x).pageText setup page) := by
  rw [System.answer, readRequest_pageNum, owned, serverReply_modified, readRequest_pageNum,
    readRequest_readSignal, if_pos rfl]
  rfl

theorem answer_of_invalid (absent : (s.machine x).listMSI page = .invalid) :
    s.answer setup x (readRequest setup page data) = some [32] := by
  rw [System.answer, readRequest_pageNum, absent, serverReply_invalid, readRequest_pageNum,
    readRequest_readSignal, if_pos rfl]

/-- What a reader displays of an answer that has reached an empty connection. -/
theorem shows_answer_iff {answered returned : System} {recvData : ProcInfo}
    {rest : List ProcInfo} {shown outputs : List Output} {between : List Event}
    {blocked : Int × Menu} {reply text : List UInt8}
    (waiting : (s.machine x).menu.awaiting = some blocked) (silent : s.replies x = [])
    (oldest : s.inbox x.peer = recvData :: rest)
    (answer : s.answer setup x.peer recvData = some reply)
    (fits : reply.length ≤ setup.pageSize)
    (handled : step setup s (.serve x.peer) = some (answered, shown))
    (during : Run (step setup) (fun _ event => event.Between x) answered between outputs
      returned) :
    Shows setup x text returned ↔
      reply ≠ [] ∧ cString (memcpy (s.machine x).recvMessage 0 reply) 0 setup.pageSize = text := by
  rw [step_serve oldest] at handled
  have moved : (s.serve setup x.peer recvData rest).1 = answered :=
    congrArg Prod.fst (Option.some.inj handled)
  have replies := s.serve_replies_peer x.peer recvData setup rest
  have machine := s.serve_machine_peer x.peer recvData setup rest
  rw [Host.peer_peer, moved] at replies machine
  rw [silent, answer, Option.getD_some, List.nil_append] at replies
  rw [← machine] at waiting
  obtain ⟨kept, buffer, menu⟩ := blocked_frame during waiting
  rw [← menu] at waiting
  rw [shows_iff waiting, kept, buffer, replies, machine, List.take_of_length_le fits]

end Answered

/-- The bytes of a reply come without a terminator: the string displayed is the string sent
when there is at least one byte and a NUL happens to stand behind them in the buffer. -/
theorem missReply_carries_iff {setup : Setup} {s answered returned : System} {x : Host}
    {page : Int} {data : ProcInfo} {rest : List ProcInfo} {blocked : Int × Menu}
    {shown outputs : List Output} {between : List Event}
    (waiting : (s.machine x).menu.awaiting = some blocked) (silent : s.replies x = [])
    (oldest : s.inbox x.peer = readRequest setup page data :: rest)
    (handled : step setup s (.serve x.peer) = some (answered, shown))
    (during : Run (step setup) (fun _ event => event.Between x) answered between outputs
      returned) :
    ((s.machine x.peer).listMSI page = .modified → (s.machine x.peer).EndsWithin setup page →
      (Shows setup x ((s.machine x.peer).pageText setup page) returned ↔
        (s.machine x.peer).pageText setup page ≠ [] ∧
          (s.machine x).recvMessage ((s.machine x.peer).pageText setup page).length = 0)) ∧
    ((s.machine x.peer).listMSI page = .invalid →
      (Shows setup x [32] returned ↔
        (1 < setup.pageSize → (s.machine x).recvMessage 1 = 0))) := by
  constructor
  · intro owned ends
    have fits := pageText_fits ends
    have nulFree : (0 : UInt8) ∉ (s.machine x.peer).pageText setup page :=
      cString_nulFree _ _ _
    rw [shows_answer_iff waiting silent oldest (answer_of_modified owned) (Nat.le_of_lt fits)
      handled during, cString_memcpy_eq_iff _ _ _ _ nulFree fits, Int.zero_add]
  · intro absent
    have one : [(32 : UInt8)].length ≤ setup.pageSize := setup.pageSize_pos
    rw [shows_answer_iff waiting silent oldest (answer_of_invalid absent) one handled during]
    by_cases large : 1 < setup.pageSize
    · rw [cString_memcpy_eq_iff _ _ _ _ (by decide) large]
      simp [large]
    · have whole : setup.pageSize = 1 := Nat.le_antisymm (Nat.le_of_not_lt large) one
      rw [whole]
      simp [cString, memcpy]

/-! ### A first reply, and one into a used buffer -/

def System.missed (page : Int) (s : System) : System :=
  (s.put .one ((s.machine .one).afterMiss twoPages page (.awaitReply page))).post .one
    (readRequest twoPages page (s.machine .one).tempData)

private theorem missed_oldest {page : Int} {s : System} (empty : s.inbox .two = []) :
    (s.missed page).inbox .two = [readRequest twoPages page (s.machine .one).tempData] := by
  change s.inbox .two ++ [_] = _
  rw [empty]
  rfl

private theorem missed_reachable {page : Int} {s : System} (reachable : Reachable twoPages s)
    (ready : (s.machine .one).menu = .prompt) (inRange : twoPages.InRange page)
    (absent : ((s.machine .one).listMSI page).I = true) :
    Reachable twoPages (s.missed page) :=
  reachable.extend
    (@Run.one _ _ _ _ (fun _ _ => True) _ _ _ _ trivial (step_miss ready inRange absent))

def firstPage : List Event := [.write .two 0 [97, 98], .serve .one]

def secondPage : List Event :=
  firstPage ++ [.read .one 0, .serve .two, .receive .one, .write .two 1 [99], .serve .one]

private theorem firstPage_run : (play (fun _ _ => True) firstPage).isSome = true := by decide

private theorem secondPage_run : (play (fun _ _ => True) secondPage).isSome = true := by decide

private def onFirst : System := (reached _ firstPage firstPage_run).missed 0

private def onSecond : System := (reached _ secondPage secondPage_run).missed 1

private theorem serve_get {s : System} {x : Host}
    (accepted : (step twoPages s (.serve x)).isSome = true) :
    step twoPages s (.serve x) =
      some (((step twoPages s (.serve x)).get accepted).1,
        ((step twoPages s (.serve x)).get accepted).2) := (Option.some_get accepted).symm

private theorem onFirst_serve : (step twoPages onFirst (.serve .two)).isSome = true := by decide

private theorem onSecond_serve : (step twoPages onSecond (.serve .two)).isSome = true := by
  decide

theorem missReply_carries_iff_first :
    Shows twoPages .one ((onFirst.machine .two).pageText twoPages 0)
      ((step twoPages onFirst (.serve .two)).get onFirst_serve).1 :=
  ((@missReply_carries_iff twoPages onFirst _ _ .one 0 _ _ (0, .prompt) _ _ _ rfl rfl
    (missed_oldest rfl) (serve_get onFirst_serve) .stop).1 (by decide)
    ⟨2, by decide, by decide⟩).mpr (by decide)

theorem missReply_carries_fails :
    ¬ ∀ (setup : Setup) (s answered returned : System) (x : Host) (page : Int)
        (data : ProcInfo) (rest : List ProcInfo) (blocked : Int × Menu)
        (shown outputs : List Output) (between : List Event), Reachable setup s →
      setup.InRange page → (s.machine x).menu.awaiting = some blocked → s.replies x = [] →
      s.inbox x.peer = readRequest setup page data :: rest →
      step setup s (.serve x.peer) = some (answered, shown) →
      Run (step setup) (fun _ event => event.Between x) answered between outputs returned →
      (s.machine x.peer).listMSI page = .modified →
      (s.machine x.peer).EndsWithin setup page →
      Shows setup x ((s.machine x.peer).pageText setup page) returned := by
  intro general
  have reachable : Reachable twoPages onSecond :=
    missed_reachable ⟨freshSystem twoPages, _, _, freshSystem_initial twoPages,
      play_run _ secondPage secondPage_run⟩ (by decide) (by decide) (by decide)
  have shows := general twoPages onSecond _ _ .one 1 _ _ (1, .prompt) _ _ _ reachable (by decide)
    rfl rfl (missed_oldest rfl) (serve_get onSecond_serve) .stop (by decide)
    ⟨1, by decide, by decide⟩
  have waiting : (((step twoPages onSecond (.serve .two)).get onSecond_serve).1.machine
      .one).menu.awaiting = some (1, .prompt) := by decide
  exact absurd ((shows_iff waiting).mp shows).2 (by decide)

end LKP.Dsm
