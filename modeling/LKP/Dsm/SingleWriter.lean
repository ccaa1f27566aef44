import LKP.Dsm.Network

/-
Single writer, for every interleaving of single commands and receive loops.

A machine enters M by a write that turns its read signal off, and that struct
takes the peer to I whenever it arrives.  What can undo this is a later write in
M: it sets no signal, and sends a read signal that some struct about another
page has switched on again in `temp_data`.  Without such a write the invariant
below holds: the peer is, or will be, in I, unless a struct that will take the
page away again is already on its way.
-/

set_option autoImplicit false

namespace LKP.Dsm

open TransitionRun

def settle (page : Int) (entry : MSIList) (structs : List ProcInfo) : MSIList :=
  structs.foldl
    (fun current data => if data.pageNum = page then serverEntry current data else current) entry

@[simp] theorem settle_nil (page : Int) (entry : MSIList) : settle page entry [] = entry := rfl

theorem settle_cons (page : Int) (entry : MSIList) (data : ProcInfo) (rest : List ProcInfo) :
    settle page entry (data :: rest) =
      settle page (if data.pageNum = page then serverEntry entry data else entry) rest := rfl

theorem settle_append (page : Int) (entry : MSIList) (structs : List ProcInfo)
    (data : ProcInfo) :
    settle page entry (structs ++ [data]) =
      if data.pageNum = page then serverEntry (settle page entry structs) data
      else settle page entry structs := by
  simp only [settle, List.foldl_append, List.foldl_cons, List.foldl_nil]

theorem settle_oneHot {page : Int} {entry : MSIList} (oneHot : entry.OneHot)
    (structs : List ProcInfo) : (settle page entry structs).OneHot := by
  induction structs generalizing entry with
  | nil => exact oneHot
  | cons data rest ih =>
      rw [settle_cons]
      apply ih
      split
      · exact serverEntry_oneHot oneHot data
      · exact oneHot

def Displaces (page : Int) (data : ProcInfo) : Prop :=
  data.pageNum = page ∧ (data.readSignal page = 1 ∨ data.readSignal page = 0 ∨
    data.invalidateSignal page = 1)

theorem serverEntry_of_displaces {page : Int} {data : ProcInfo}
    (displaces : Displaces page data) : serverEntry .modified data ≠ .modified := by
  obtain ⟨rfl, on | off⟩ := displaces
  · rw [serverEntry_modified, if_pos on]
    decide
  · rw [serverEntry_modified]
    simp only [if_pos off]
    split <;> decide

/-- The owner of a page either is about to lose it, or its peer ends up in I. -/
def Exclusive (page : Int) (s : System) : Prop :=
  ∀ x, (s.machine x).listMSI page = .modified →
    (∃ data ∈ s.inbox x, Displaces page data) ∨
      settle page ((s.machine x.peer).listMSI page) (s.inbox x.peer) = .invalid

/-- A `w` on a page in M finds the read signal of that page off. -/
def CleanWrite (s : System) : Event → Prop
  | .write x page _ => (s.machine x).listMSI page = .modified →
      (s.machine x).tempData.readSignal page ≠ 1
  | _ => True

instance (s : System) (event : Event) : Decidable (CleanWrite s event) :=
  match event with
  | .write _ _ _ => inferInstanceAs (Decidable (_ → _))
  | .read _ _ | .select _ _ | .enter _ _ | .iterate _ | .receive _ | .serve _ =>
      inferInstanceAs (Decidable True)

/-- What the condition excludes: a write in M with the read signal on takes the peer from
I to S. -/
theorem staleWrite_shares (setup : Setup) (page : Int) (data : ProcInfo)
    (stale : data.readSignal page = 1) :
    serverEntry .invalid (writeRequest setup .modified page data) = .shared := by
  rw [serverEntry_invalid, writeRequest_modified]
  exact if_pos stale

theorem Initial.exclusive {setup : Setup} {s : System} (initial : Initial setup s)
    {page : Int} (inRange : setup.InRange page) : Exclusive page s := by
  intro x owned
  rw [initial.invalid x page inRange] at owned
  cases owned

/-- Posting a struct that either displaces the peer or names another page keeps what
was known of the peer, whose own table and inbox of the sender are unchanged. -/
private theorem exclusive_peer {page : Int} {s after : System} {x : Host} {data : ProcInfo}
    (before : Exclusive page s)
    (machine : after.machine x.peer = s.machine x.peer)
    (sender : after.inbox x = s.inbox x)
    (receiver : after.inbox x.peer = s.inbox x.peer ++ [data])
    (effect : Displaces page data ∨
      (after.machine x).listMSI page = (s.machine x).listMSI page)
    (owned : (after.machine x.peer).listMSI page = .modified) :
    (∃ data ∈ after.inbox x.peer, Displaces page data) ∨
      settle page ((after.machine x).listMSI page) (after.inbox x) = .invalid := by
  rw [receiver]
  rcases effect with displaces | unchanged
  · exact .inl ⟨data, by simp, displaces⟩
  · rw [machine] at owned
    rcases before x.peer owned with ⟨earlier, member, displaces⟩ | gone
    · exact .inl ⟨earlier, List.mem_append_left _ member, displaces⟩
    · rw [Host.peer_peer] at gone
      rw [unchanged, sender]
      exact .inr gone

private theorem exclusive_write {setup : Setup} {s : System} (table : OneHotTable setup s)
    {page : Int} (watched : setup.InRange page) (before : Exclusive page s)
    (x : Host) (index : Int) (message : List UInt8) (inRange : setup.InRange index)
    (clean : (s.machine x).listMSI index = .modified →
      (s.machine x).tempData.readSignal index ≠ 1) :
    Exclusive page
      ((s.put x ((s.machine x).afterWrite setup index message .prompt)).post x
        (writeRequest setup ((s.machine x).listMSI index) index (s.machine x).tempData)) := by
  have ownOneHot := table x index inRange
  have settled : (settle page ((s.machine x.peer).listMSI page) (s.inbox x.peer)).OneHot :=
    settle_oneHot (table x.peer page watched) _
  intro z owned
  rcases Host.eq_or_eq_peer x z with rfl | rfl
  · rw [System.post_machine, System.put_machine_peer, System.post_inbox_peer,
      System.post_inbox_self, System.put_inbox, settle_append, writeRequest_pageNum]
    rw [System.post_machine, System.put_machine_self, afterWrite_listMSI] at owned
    by_cases same : index = page
    · subst same
      rw [if_pos rfl]
      by_cases already : (s.machine z).listMSI index = .modified
      · rcases before z already with lost | gone
        · exact .inl lost
        · right
          rw [gone, serverEntry_invalid, already, writeRequest_modified]
          exact if_neg (clean already)
      · right
        apply serverEntry_of_read_off settled
        rw [writeRequest_pageNum]
        exact writeRequest_readSignal_off setup ownOneHot already index _
    · rw [if_neg same]
      rw [Function.update_of_ne (Ne.symm same)] at owned
      exact before z owned
  · rw [Host.peer_peer]
    refine exclusive_peer before (by simp) (by simp) (System.post_inbox_peer ..) ?_ owned
    rw [System.post_machine, System.put_machine_self, afterWrite_listMSI]
    by_cases same : index = page
    · subst same
      by_cases already : (s.machine x).listMSI index = .modified
      · exact .inr (by rw [Function.update_self, already])
      · exact .inl ⟨rfl, .inr (.inl
          (writeRequest_readSignal_off setup ownOneHot already index _))⟩
    · exact .inr (Function.update_of_ne (Ne.symm same) ..)

private theorem exclusive_serve {setup : Setup} {s : System} (table : OneHotTable setup s)
    {page : Int} (watched : setup.InRange page) (before : Exclusive page s)
    (x : Host) (recvData : ProcInfo) (rest : List ProcInfo)
    (oldest : s.inbox x = recvData :: rest) :
    Exclusive page (s.serve setup x recvData rest).1 := by
  have entry : ((s.serve setup x recvData rest).1.machine x).listMSI page =
      if recvData.pageNum = page then serverEntry ((s.machine x).listMSI page) recvData
      else (s.machine x).listMSI page := by
    rw [System.serve_machine_self]
    by_cases same : recvData.pageNum = page
    · subst same
      rw [if_pos rfl]
      exact Function.update_self ..
    · rw [if_neg same]
      exact Function.update_of_ne (Ne.symm same) ..
  intro z owned
  rcases Host.eq_or_eq_peer x z with rfl | rfl
  · rw [System.serve_machine_peer, System.serve_inbox_peer, System.serve_inbox_self]
    rw [entry] at owned
    have already : (s.machine z).listMSI page = .modified := by
      split at owned
      · exact serverEntry_eq_modified (table z page watched) owned
      · exact owned
    rcases before z already with ⟨data, member, displaces⟩ | gone
    · rw [oldest] at member
      rcases List.mem_cons.mp member with rfl | later
      · -- the displacing struct is the one just served, so the page is not in M now
        rw [if_pos displaces.1, already] at owned
        exact absurd owned (serverEntry_of_displaces displaces)
      · exact .inl ⟨data, later, displaces⟩
    · exact .inr gone
  · rw [Host.peer_peer, System.serve_inbox_peer, System.serve_inbox_self, entry]
    rw [System.serve_machine_peer] at owned
    have earlier := before x.peer owned
    rw [Host.peer_peer, oldest, settle_cons] at earlier
    exact earlier

theorem Move.exclusive {setup : Setup} {s after : System} {event : Event}
    {shown : List Output} (move : Move setup s event after shown) (clean : CleanWrite s event)
    (table : OneHotTable setup s) {page : Int} (watched : setup.InRange page)
    (before : Exclusive page s) : Exclusive page after := by
  cases move with
  | hit x index shown _ready _inRange _held =>
      intro z owned
      rcases Host.eq_or_eq_peer x z with rfl | rfl
      · simpa using before z (by simpa using owned)
      · simpa using before x.peer (by simpa using owned)
  | miss x index _ready _inRange _absent =>
      intro z owned
      rcases Host.eq_or_eq_peer x z with rfl | rfl
      · rw [System.post_machine, System.put_machine_self, afterMiss_listMSI] at owned
        have other : page ≠ index := by
          intro same
          rw [same, Function.update_self] at owned
          cases owned
        rw [Function.update_of_ne other] at owned
        rw [System.post_machine, System.put_machine_peer, System.post_inbox_peer,
          System.post_inbox_self, System.put_inbox, settle_append, readRequest_pageNum,
          if_neg (Ne.symm other)]
        exact before z owned
      · rw [Host.peer_peer]
        refine exclusive_peer before (by simp) (by simp) (System.post_inbox_peer ..) ?_ owned
        rw [System.post_machine, System.put_machine_self, afterMiss_listMSI]
        by_cases same : index = page
        · subst same
          exact .inl ⟨rfl, .inl (readRequest_readSignal ..)⟩
        · exact .inr (Function.update_of_ne (Ne.symm same) ..)
  | write x index message _ready inRange =>
      exact exclusive_write table watched before x index message inRange clean
  | receive x index next text _waiting _available =>
      intro z owned
      rcases Host.eq_or_eq_peer x z with rfl | rfl
      · simpa using before z (by simpa using owned)
      · simpa using before x.peer (by simpa using owned)
  | serve x recvData rest oldest =>
      exact exclusive_serve table watched before x recvData rest oldest

/-- In a run of single commands whose writes in M all find the read signal off, a page
in M on one machine is in I on the other whenever nothing is in flight. -/
theorem single_writer {setup : Setup} {start final : System} {events : List Event}
    {outputs : List Output} (initial : Initial setup start)
    (run : Run (step setup) (fun s event => event.Single setup ∧ CleanWrite s event)
      start events outputs final)
    (drained : Drained final) (x : Host) (page : Int) (inRange : setup.InRange page)
    (owned : ((final.machine x).listMSI page).M = true) :
    ((final.machine x.peer).listMSI page).I = true := by
  have invariant : OneHotTable setup final ∧ Exclusive page final := by
    refine run.invariant (fun s => OneHotTable setup s ∧ Exclusive page s)
      ⟨initial.oneHot, initial.exclusive inRange⟩ ?_
    rintro before event after shown ⟨table, exclusive⟩ ⟨single, clean⟩ accepted
    have move := Move.of_step single accepted
    exact ⟨move.oneHot table, move.exclusive clean table inRange exclusive⟩
  obtain ⟨table, exclusive⟩ := invariant
  have modified : (final.machine x).listMSI page = .modified := by
    rcases table x page inRange with same | same | same
    · exact same
    · rw [same] at owned
      cases owned
    · rw [same] at owned
      cases owned
  rcases exclusive x modified with ⟨data, member, _displaces⟩ | gone
  · rw [drained x] at member
    cases member
  · rw [drained x.peer, settle_nil] at gone
    rw [gone]
    rfl

/-- Machine 1 answers a read of page 0 and keeps its read signal in `temp_data`; the
struct of its write to page 1 carries that signal to machine 2, which has by then
written page 0 and writes it once more. -/
def staleReadEvents : List Event :=
  [.read .two 0, .serve .one, .receive .two, .write .one 1 [120], .write .two 0 [121],
    .serve .one, .serve .two, .write .two 0 [122], .serve .one]

private theorem staleRead_runs :
    (play (fun _ event => event.Single twoPages) staleReadEvents).isSome = true := by decide

/-- Without the condition on writes, machine 2 ends in M and machine 1 in S. -/
theorem single_writer_fails :
    ¬ ∀ (setup : Setup) (start final : System) (events : List Event) (outputs : List Output),
      Initial setup start → Interleaved setup start events outputs final → Drained final →
      ∀ x page, setup.InRange page → ((final.machine x).listMSI page).M = true →
        ((final.machine x.peer).listMSI page).I = true := by
  intro general
  have excluded := general twoPages _ _ _ _ (freshSystem_initial twoPages)
    (play_run _ staleReadEvents staleRead_runs) (drained_of_hosts rfl rfl) .two 0
    (by decide) (by decide)
  exact absurd excluded (by decide)

def twoWrites : List Event :=
  [.write .two 0 [121], .serve .one, .write .two 0 [122], .serve .one]

private theorem twoWrites_run :
    (play (fun s event => event.Single twoPages ∧ CleanWrite s event) twoWrites).isSome =
      true := by
  decide

theorem single_writer_twoWrites :
    (((reached _ twoWrites twoWrites_run).machine .one).listMSI 0).I = true :=
  single_writer (freshSystem_initial twoPages) (play_run _ twoWrites twoWrites_run)
    (drained_of_hosts rfl rfl) .two 0 (by decide) (by decide)

end LKP.Dsm
