import LKP.Dsm.Network

/-
A written page stays with some machine.

A machine that has written a page keeps it unless a struct that invalidates it is
already on its way, and gives it up only to a machine that has written it later.
The code breaks this in two places: a `w` that crosses the peer's `w`, which takes
both copies to I, and the receive loop's treatment of a read request for a page in
S, which its second branch takes for an invalidation.
-/

set_option autoImplicit false

namespace LKP.Dsm

open TransitionRun CBuffer

def writtenTo (page : Int) (events : List Event) : List (List UInt8) :=
  events.filterMap fun event =>
    match event with
    | .write _ index message => if index = page then some (strBytes message) else none
    | _ => none

/-- The machine holds the page, its copy begins with a written message, and every struct
about the page on its way to it is a read request. -/
structure Keeps (setup : Setup) (page : Int) (written : List (List UInt8))
    (machine : Machine) (inbox : List ProcInfo) : Prop where
  held : machine.listMSI page = .modified ∨ machine.listMSI page = .shared
  begins : ∃ text ∈ written, text.length ≤ setup.pageSize ∧
    Holds machine.addr (page * setup.pageSize) text
  spared : ∀ data ∈ inbox, data.pageNum = page → data.readSignal page = 1

def Kept (setup : Setup) (page : Int) (written : List (List UInt8)) (s : System) : Prop :=
  written ≠ [] → ∃ x, Keeps setup page written (s.machine x) (s.inbox x)

/-- A `w` copies no more than a page and crosses no write to the same page, and no read
request takes a page from S to I. -/
def Uncrossed (setup : Setup) (s : System) : Event → Prop
  | .write x page message =>
      (strBytes message).length ≤ setup.pageSize ∧
        ∀ data ∈ s.inbox x, data.pageNum = page → data.readSignal page = 1
  | .serve x =>
      ∀ recvData ∈ (s.inbox x).head?,
        (s.machine x).listMSI recvData.pageNum = .shared →
        recvData.readSignal recvData.pageNum = 1 →
        ¬ (recvData.busRequest recvData.pageNum ∨
          recvData.invalidateSignal recvData.pageNum = 1)
  | _ => True

instance (setup : Setup) (s : System) (event : Event) : Decidable (Uncrossed setup s event) :=
  match event with
  | .write _ _ _ => inferInstanceAs (Decidable (_ ∧ _))
  | .serve _ => inferInstanceAs (Decidable (∀ _ ∈ _, _))
  | .read _ _ | .select _ _ | .enter _ _ | .iterate _ | .receive _ =>
      inferInstanceAs (Decidable True)

section Keeping

variable {setup : Setup} {page : Int} {written : List (List UInt8)}
variable {machine : Machine} {inbox : List ProcInfo}

theorem Keeps.more (keeps : Keeps setup page written machine inbox)
    (extra : List (List UInt8)) : Keeps setup page (written ++ extra) machine inbox := by
  obtain ⟨text, member, rest⟩ := keeps.begins
  exact ⟨keeps.held, ⟨text, List.mem_append_left _ member, rest⟩, keeps.spared⟩

/-- A step elsewhere leaves the keeper alone: the entry and the bytes of the page stay. -/
theorem Keeps.of_same (keeps : Keeps setup page written machine inbox) {after : Machine}
    (entry : after.listMSI page = machine.listMSI page)
    (bytes : ∀ offset : Int, page * setup.pageSize ≤ offset →
      offset < page * setup.pageSize + setup.pageSize →
      after.addr offset = machine.addr offset) :
    Keeps setup page written after inbox := by
  refine ⟨entry ▸ keeps.held, ?_, keeps.spared⟩
  obtain ⟨text, member, fits, held⟩ := keeps.begins
  exact ⟨text, member, fits, held.of_agree
    (fun offset lower upper => bytes offset lower (by omega))⟩

theorem Keeps.post (keeps : Keeps setup page written machine inbox) {data : ProcInfo}
    (harmless : data.pageNum = page → data.readSignal page = 1) :
    Keeps setup page written machine (inbox ++ [data]) := by
  refine ⟨keeps.held, keeps.begins, ?_⟩
  intro posted member
  rcases List.mem_append.mp member with earlier | new
  · exact keeps.spared posted earlier
  · rw [List.mem_singleton.mp new]
    exact harmless

theorem Keeps.not_absent (keeps : Keeps setup page written machine inbox) :
    (machine.listMSI page).I ≠ true := by
  rcases keeps.held with held | held
  · rw [held]
    decide
  · rw [held]
    decide

theorem serverEntry_keeps {entry : MSIList} {recvData : ProcInfo}
    (held : entry = .modified ∨ entry = .shared)
    (request : recvData.readSignal recvData.pageNum = 1)
    (uncrossed : entry = .shared → ¬ (recvData.busRequest recvData.pageNum ∨
      recvData.invalidateSignal recvData.pageNum = 1)) :
    serverEntry entry recvData = .shared := by
  rcases held with rfl | rfl
  · rw [serverEntry_modified, if_pos request]
  · obtain ⟨noBus, noInvalidate⟩ := not_or.mp (uncrossed rfl)
    have on : recvData.readSignal recvData.pageNum ≠ 0 := by
      rw [request]
      decide
    rw [serverEntry_shared, if_neg noBus, if_neg (not_or.mpr ⟨on, noInvalidate⟩)]

end Keeping

private theorem kept_write {setup : Setup} {page : Int} {written : List (List UInt8)}
    {s : System} (x : Host) (index : Int) (message : List UInt8)
    (fits : (strBytes message).length ≤ setup.pageSize)
    (uncrossed : ∀ data ∈ s.inbox x, data.pageNum = index → data.readSignal index = 1)
    (before : Kept setup page written s) :
    Kept setup page (written ++ if index = page then [strBytes message] else [])
      ((s.put x ((s.machine x).afterWrite setup index message .prompt)).post x
        (writeRequest setup ((s.machine x).listMSI index) index (s.machine x).tempData)) := by
  intro some
  by_cases same : index = page
  · subst same
    refine ⟨x, ?_⟩
    rw [System.post_machine, System.put_machine_self, System.post_inbox_self,
      System.put_inbox, if_pos rfl]
    refine ⟨.inl (Function.update_self ..), ?_, uncrossed⟩
    exact ⟨strBytes message, by simp, fits, memcpy_holds _ _ _⟩
  · rw [if_neg same, List.append_nil] at some ⊢
    obtain ⟨z, keeps⟩ := before some
    refine ⟨z, ?_⟩
    rcases Host.eq_or_eq_peer x z with rfl | rfl
    · rw [System.post_machine, System.put_machine_self, System.post_inbox_self,
        System.put_inbox]
      exact keeps.of_same (Function.update_of_ne (Ne.symm same) ..)
        (fun _ lower upper =>
          afterWrite_addr_other setup (Ne.symm same) message fits _ _ lower upper)
    · rw [System.post_machine, System.put_machine_peer, System.post_inbox_peer,
        System.put_inbox]
      exact keeps.post (fun named => absurd named same)

private theorem kept_serve {setup : Setup} {page : Int} {written : List (List UInt8)}
    {s : System} (x : Host) (recvData : ProcInfo) (rest : List ProcInfo)
    (oldest : s.inbox x = recvData :: rest)
    (uncrossed : (s.machine x).listMSI recvData.pageNum = .shared →
      recvData.readSignal recvData.pageNum = 1 →
      ¬ (recvData.busRequest recvData.pageNum ∨
        recvData.invalidateSignal recvData.pageNum = 1))
    (before : Kept setup page written s) :
    Kept setup page written (s.serve setup x recvData rest).1 := by
  intro some
  obtain ⟨z, keeps⟩ := before some
  refine ⟨z, ?_⟩
  rcases Host.eq_or_eq_peer x z with rfl | rfl
  · rw [System.serve_machine_self, System.serve_inbox_self]
    rw [oldest] at keeps
    have spared : ∀ data ∈ rest, data.pageNum = page → data.readSignal page = 1 :=
      fun data member => keeps.spared data (List.mem_cons_of_mem _ member)
    refine ⟨?_, keeps.begins, spared⟩
    by_cases same : recvData.pageNum = page
    · subst same
      have request := keeps.spared recvData List.mem_cons_self rfl
      right
      rw [afterServe_listMSI, Function.update_self]
      exact serverEntry_keeps keeps.held request (fun shared => uncrossed shared request)
    · rw [afterServe_listMSI, Function.update_of_ne (Ne.symm same)]
      exact keeps.held
  · rw [System.serve_machine_peer, System.serve_inbox_peer]
    exact keeps

theorem Move.kept {setup : Setup} {page : Int} {past : List Event} {s after : System}
    {event : Event} {shown : List Output} (move : Move setup s event after shown)
    (uncrossed : Uncrossed setup s event) (before : Kept setup page (writtenTo page past) s) :
    Kept setup page (writtenTo page (past ++ [event])) after := by
  unfold writtenTo
  rw [List.filterMap_append]
  cases move with
  | hit x index shown _ready _inRange _held =>
      intro some
      rw [show List.filterMap _ [Event.read x index] = [] from rfl, List.append_nil] at some ⊢
      obtain ⟨z, keeps⟩ := before some
      refine ⟨z, ?_⟩
      rcases Host.eq_or_eq_peer x z with rfl | rfl
      · rw [System.put_machine_self]
        exact keeps.of_same rfl (fun _ _ _ => rfl)
      · rw [System.put_machine_peer]
        exact keeps
  | miss x index _ready _inRange absent =>
      intro some
      rw [show List.filterMap _ [Event.read x index] = [] from rfl, List.append_nil] at some ⊢
      obtain ⟨z, keeps⟩ := before some
      refine ⟨z, ?_⟩
      rcases Host.eq_or_eq_peer x z with rfl | rfl
      · have other : page ≠ index := by
          intro same
          subst same
          exact keeps.not_absent absent
        rw [System.post_machine, System.put_machine_self, System.post_inbox_self,
          System.put_inbox]
        exact keeps.of_same (Function.update_of_ne other ..)
          (fun _ lower upper => afterMiss_addr_other setup other _ _ lower upper)
      · rw [System.post_machine, System.put_machine_peer, System.post_inbox_peer,
          System.put_inbox]
        apply keeps.post
        intro same
        subst same
        exact readRequest_readSignal ..
  | write x index message _ready _inRange =>
      have appended : List.filterMap (fun event : Event =>
          match event with
          | .write _ index message => if index = page then some (strBytes message) else none
          | _ => none) [Event.write x index message] =
          if index = page then [strBytes message] else [] := by
        by_cases same : index = page
        · simp [same]
        · simp [same]
      rw [appended]
      exact kept_write x index message uncrossed.1 uncrossed.2 before
  | receive x index next text _waiting _available =>
      intro some
      rw [show List.filterMap _ [Event.receive x] = [] from rfl, List.append_nil] at some ⊢
      obtain ⟨z, keeps⟩ := before some
      refine ⟨z, ?_⟩
      rcases Host.eq_or_eq_peer x z with rfl | rfl
      · rw [System.put_machine_self]
        exact keeps.of_same rfl (fun _ _ _ => rfl)
      · rw [System.put_machine_peer]
        exact keeps
  | serve x recvData rest oldest =>
      rw [show List.filterMap _ [Event.serve x] = [] from rfl, List.append_nil]
      exact kept_serve x recvData rest oldest
        (uncrossed recvData (by rw [oldest]; rfl)) before

/-- In a run of single commands without crossing writes, in which no read request takes a
page from S to I, a written page is in M or S on a machine whose copy begins with a
message written to it. -/
theorem no_lost_page {setup : Setup} {start final : System} {events : List Event}
    {outputs : List Output}
    (run : Run (step setup) (fun s event => event.Single setup ∧ Uncrossed setup s event)
      start events outputs final)
    (page : Int) (written : ∃ text ∈ writtenTo page events, text ≠ []) :
    ∃ x, (((final.machine x).listMSI page).M = true ∨
        ((final.machine x).listMSI page).S = true) ∧
      ∃ text ∈ writtenTo page events,
        Holds (final.machine x).addr (page * setup.pageSize) text := by
  have kept : Kept setup page (writtenTo page events) final := by
    refine run.history_invariant
      (fun past _ s => Kept setup page (writtenTo page past) s)
      (fun some => absurd rfl some) ?_
    rintro past _ before event after shown kept ⟨single, uncrossed⟩ accepted
    exact (Move.of_step single accepted).kept uncrossed kept
  obtain ⟨text, member, _nonempty⟩ := written
  obtain ⟨x, keeps⟩ := kept (List.ne_nil_of_mem member)
  obtain ⟨first, written, _fits, held⟩ := keeps.begins
  refine ⟨x, ?_, first, written, held⟩
  rcases keeps.held with modified | shared
  · rw [modified]
    exact .inl rfl
  · rw [shared]
    exact .inr rfl

def writeThenFetch : List Event :=
  [.write .one 0 [97], .serve .two, .read .two 0, .serve .one, .receive .two]

private theorem writeThenFetch_run :
    (play (fun s event => event.Single twoPages ∧ Uncrossed twoPages s event)
      writeThenFetch).isSome = true := by
  decide

theorem no_lost_page_writeThenFetch :
    ∃ x, ((((reached _ writeThenFetch writeThenFetch_run).machine x).listMSI 0).M = true ∨
        (((reached _ writeThenFetch writeThenFetch_run).machine x).listMSI 0).S = true) ∧
      ∃ text ∈ writtenTo 0 writeThenFetch,
        Holds ((reached _ writeThenFetch writeThenFetch_run).machine x).addr
          (0 * twoPages.pageSize) text :=
  no_lost_page (play_run _ writeThenFetch writeThenFetch_run) 0
    ⟨[97], by decide, by decide⟩

/-! ### The crossing that loses a page -/

/-- Both machines write page 0 before either has received the other's struct. -/
def crossingWrites : List Event :=
  [.write .one 0 [97], .write .two 0 [98], .serve .one, .serve .two]

private theorem crossingWrites_run :
    (play (fun _ event => event.Single twoPages) crossingWrites).isSome = true := by decide

theorem no_lost_page_fails :
    ¬ ∀ (setup : Setup) (start final : System) (events : List Event) (outputs : List Output),
      Initial setup start → Interleaved setup start events outputs final → Drained final →
      ∀ page, setup.InRange page → (∃ text ∈ writtenTo page events, text ≠ []) →
        ∃ x, (((final.machine x).listMSI page).M = true ∨
            ((final.machine x).listMSI page).S = true) ∧
          ∃ text ∈ writtenTo page events,
            Holds (final.machine x).addr (page * setup.pageSize) text := by
  intro general
  obtain ⟨x, held, _copy⟩ := general twoPages _ _ _ _ (freshSystem_initial twoPages)
    (play_run _ crossingWrites crossingWrites_run) (drained_of_hosts rfl rfl) 0 (by decide)
    ⟨[97], by decide, by decide⟩
  cases x with
  | one => exact absurd held (by decide)
  | two => exact absurd held (by decide)

end LKP.Dsm
