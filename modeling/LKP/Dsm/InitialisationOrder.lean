import LKP.Dsm.StartUp

/-
Initialisation before use on the process that becomes machine 2.

Its two threads meet in two places.  The server thread looks at `mch_num` once, right
after `accept`, while the client thread may not have set it; it then skips the
handshake for good.  And the client thread waits for `addr` only, which the server
thread sets before the MSI table and the userfaultfd.  When the schedule keeps out of
these two windows, everything is in order.
-/

set_option autoImplicit false

namespace LKP.Dsm

open TransitionRun

inductive Taken where
  | asHandshake
  | asMessage
deriving DecidableEq

/-- How the server thread of `x` has taken the structs it received, oldest first. -/
def takings (x : Host) (marks : List (Host × Mark)) : List Taken :=
  marks.filterMap fun mark =>
    match mark with
    | (z, .handshake) => if z = x then some .asHandshake else none
    | (z, .transition) => if z = x then some .asMessage else none
    | _ => none

/-- The first struct, if one has come, was taken as the handshake. -/
def HandshakeFirst (x : Host) (marks : List (Host × Mark)) : Prop :=
  (takings x marks).head? ≠ some .asMessage

/-- All pages have been put in I, and the userfaultfd has been created and registered. -/
def SetUp (x : Host) (uffd : Int) (marks : List (Host × Mark)) : Prop :=
  (∃ listMSI pageCount, (x, Mark.initialised listMSI pageCount) ∈ marks ∧
      ∀ page, 0 ≤ page → page < pageCount → listMSI page = .invalid) ∧
    (x, Mark.registered uffd) ∈ marks

/-- The fault handler got the registered userfaultfd, and the menu was entered, only after
the set-up. -/
def SetUpFirst (x : Host) (marks : List (Host × Mark)) : Prop :=
  ∀ before after uffd, marks = before ++ (x, Mark.handler uffd) :: after → SetUp x uffd before

def ServerPoint.SettingUp : ServerPoint → Prop
  | .initialising _ | .creating | .registering => True
  | _ => False

instance (point : ServerPoint) : Decidable point.SettingUp := by
  cases point <;> unfold ServerPoint.SettingUp <;> infer_instance

/-- The two windows: the server thread of `x` tests `mch_num` before the client thread has
set it, or the client thread tests `addr` during the set-up. -/
def InTime (x : Host) (s : Pair) : Action → Prop
  | .server z .testRole => z = x → (s.process x).mchNum ≠ 0
  | .client z .testAddr => z = x → ¬ (s.process x).server.SettingUp
  | _ => True

instance (x : Host) (s : Pair) (action : Action) : Decidable (InTime x s action) := by
  unfold InTime
  split <;> infer_instance

/-! ### Marks -/

section Marks

variable {x z : Host} {uffd : Int} {marks new : List (Host × Mark)}

theorem takings_append (x : Host) (marks new : List (Host × Mark)) :
    takings x (marks ++ new) = takings x marks ++ takings x new :=
  List.filterMap_append ..

theorem takings_other (other : z ≠ x) (own : List Mark) :
    takings x (own.map (fun mark => (z, mark))) = [] := by
  apply List.filterMap_eq_nil_iff.mpr
  intro mark member
  obtain ⟨kind, _own, rfl⟩ := List.mem_map.mp member
  cases kind with
  | handshake => exact if_neg other
  | transition => exact if_neg other
  | initialised listMSI pageCount => rfl
  | registered uffd => rfl
  | handler uffd => rfl

theorem SetUp.more (setUp : SetUp x uffd marks) (new : List (Host × Mark)) :
    SetUp x uffd (marks ++ new) := by
  obtain ⟨⟨listMSI, pageCount, member, invalid⟩, registered⟩ := setUp
  exact ⟨⟨listMSI, pageCount, List.mem_append_left _ member, invalid⟩,
    List.mem_append_left _ registered⟩

theorem SetUpFirst.append (first : SetUpFirst x marks)
    (fresh : ∀ uffd, (x, Mark.handler uffd) ∈ new → SetUp x uffd marks) :
    SetUpFirst x (marks ++ new) := by
  intro before after uffd split
  rcases List.append_eq_append_iff.mp split with ⟨middle, rfl, later⟩ | ⟨middle, earlier, later⟩
  · apply SetUp.more
    apply fresh
    rw [later]
    exact List.mem_append_right _ List.mem_cons_self
  · cases middle with
    | nil =>
        rw [List.append_nil] at earlier
        rw [← earlier]
        apply fresh
        rw [List.nil_append] at later
        rw [← later]
        exact List.mem_cons_self
    | cons head rest =>
        rw [List.cons_append] at later
        obtain ⟨rfl, _same⟩ := List.cons.inj later
        exact first before rest uffd earlier

theorem setUpFirst_other (first : SetUpFirst x marks) (other : z ≠ x) (own : List Mark) :
    SetUpFirst x (marks ++ own.map (fun mark => (z, mark))) := by
  apply first.append
  intro uffd member
  obtain ⟨kind, _own, same⟩ := List.mem_map.mp member
  exact absurd (congrArg Prod.fst same) other

end Marks

/-! ### The order on one process -/

def TableSetUp (x : Host) (marks : List (Host × Mark)) : Prop :=
  ∃ listMSI pageCount, (x, Mark.initialised listMSI pageCount) ∈ marks ∧
    ∀ page, 0 ≤ page → page < pageCount → listMSI page = .invalid

def ServerOrder (x : Host) (marks : List (Host × Mark)) (process : Process) : Prop :=
  match process.server with
  | .start | .bound | .listening | .accepted => process.addr = 0 ∧ takings x marks = []
  | .handshake => process.mchNum = 2 ∧ process.addr = 0 ∧ takings x marks = []
  | .mapping =>
      process.mchNum = 2 ∧ process.addr = 0 ∧ (takings x marks).head? = some .asHandshake
  | .initialising count =>
      process.mchNum = 2 ∧ (takings x marks).head? = some .asHandshake ∧
        ∀ page, 0 ≤ page → page < count → process.listMSI page = .invalid
  | .creating | .registering =>
      process.mchNum = 2 ∧ (takings x marks).head? = some .asHandshake ∧ TableSetUp x marks
  | .receiving =>
      process.mchNum = 2 ∧ (takings x marks).head? = some .asHandshake ∧
        SetUp x process.initUffd marks

def ClientPoint.Order (mchNum : Int) (receiving : Prop) : ClientPoint → Prop
  | .start | .connected | .refused => mchNum = 0
  | .decided | .waiting => mchNum = 2
  | .starting | .menu => mchNum = 2 ∧ receiving
  | _ => False

def Process.IsFirst (process : Process) : Prop :=
  process.mchNum = 1 ∧ process.client ≠ .start ∧ process.client ≠ .connected ∧
    process.client ≠ .refused

structure InOrder (x : Host) (marks : List (Host × Mark)) (process : Process) : Prop where
  server : ServerOrder x marks process
  client : process.client.Order process.mchNum (process.server = .receiving)
  setUp : SetUpFirst x marks

section Points

variable {x : Host} {marks : List (Host × Mark)} {process : Process}

theorem ServerOrder.taken (order : ServerOrder x marks process) :
    takings x marks = [] ∨ (takings x marks).head? = some .asHandshake := by
  unfold ServerOrder at order
  split at order
  · exact .inl order.2
  · exact .inl order.2
  · exact .inl order.2
  · exact .inl order.2
  · exact .inl order.2.2
  · exact .inr order.2.2
  · exact .inr order.2.1
  · exact .inr order.2.1
  · exact .inr order.2.1
  · exact .inr order.2.1

theorem ServerOrder.handshakeFirst (order : ServerOrder x marks process) :
    HandshakeFirst x marks := by
  unfold HandshakeFirst
  rcases order.taken with none | first
  · rw [none]
    decide
  · rw [first]
    decide

/-- Marks that take no struct leave the order of the server thread as it is. -/
theorem ServerOrder.more (order : ServerOrder x marks process) {new : List (Host × Mark)}
    (untaken : takings x new = []) : ServerOrder x (marks ++ new) process := by
  have same : takings x (marks ++ new) = takings x marks := by
    rw [takings_append, untaken, List.append_nil]
  have table : TableSetUp x marks → TableSetUp x (marks ++ new) := by
    intro premise
    obtain ⟨listMSI, pageCount, member, invalid⟩ := premise
    exact ⟨listMSI, pageCount, List.mem_append_left _ member, invalid⟩
  unfold ServerOrder at order ⊢
  rw [same]
  cases point : process.server with
  | start => simpa only [point] using order
  | bound => simpa only [point] using order
  | listening => simpa only [point] using order
  | accepted => simpa only [point] using order
  | handshake => simpa only [point] using order
  | mapping => simpa only [point] using order
  | initialising count => simpa only [point] using order
  | creating =>
      simp only [point] at order
      exact ⟨order.1, order.2.1, table order.2.2⟩
  | registering =>
      simp only [point] at order
      exact ⟨order.1, order.2.1, table order.2.2⟩
  | receiving =>
      simp only [point] at order
      exact ⟨order.1, order.2.1, order.2.2.more new⟩

theorem ServerOrder.of_unset (order : ServerOrder x marks process)
    (unset : process.mchNum = 0) :
    process.addr = 0 ∧ takings x marks = [] ∧
      (process.server = .start ∨ process.server = .bound ∨ process.server = .listening ∨
        process.server = .accepted) := by
  unfold ServerOrder at order
  rw [unset] at order
  cases point : process.server with
  | start => simpa only [point, true_or, and_true] using order
  | bound => simpa only [point, true_or, or_true, and_true] using order
  | listening => simpa only [point, true_or, or_true, and_true] using order
  | accepted => simpa only [point, or_true, and_true] using order
  | handshake => simp [point] at order
  | mapping => simp [point] at order
  | initialising count => simp [point] at order
  | creating => simp [point] at order
  | registering => simp [point] at order
  | receiving => simp [point] at order

/-- With `addr` set and the set-up not under way, the set-up is done. -/
theorem ServerOrder.of_mapped (order : ServerOrder x marks process)
    (mapped : process.addr ≠ 0) (inTime : ¬ process.server.SettingUp) :
    process.server = .receiving := by
  unfold ServerOrder at order
  cases point : process.server with
  | start =>
      simp only [point] at order
      exact absurd order.1 mapped
  | bound =>
      simp only [point] at order
      exact absurd order.1 mapped
  | listening =>
      simp only [point] at order
      exact absurd order.1 mapped
  | accepted =>
      simp only [point] at order
      exact absurd order.1 mapped
  | handshake =>
      simp only [point] at order
      exact absurd order.2.1 mapped
  | mapping =>
      simp only [point] at order
      exact absurd order.2.1 mapped
  | initialising count =>
      rw [point] at inTime
      exact absurd trivial inTime
  | creating =>
      rw [point] at inTime
      exact absurd trivial inTime
  | registering =>
      rw [point] at inTime
      exact absurd trivial inTime
  | receiving => rfl

theorem ClientPoint.Order.imp {mchNum : Int} {before after : Prop} {point : ClientPoint}
    (order : point.Order mchNum before) (still : before → after) :
    point.Order mchNum after := by
  cases point with
  | starting => exact ⟨order.1, still order.2⟩
  | menu => exact ⟨order.1, still order.2⟩
  | _ => exact order

theorem ClientPoint.Order.role {mchNum : Int} {receiving : Prop} {point : ClientPoint}
    (order : point.Order mchNum receiving) : mchNum = 0 ∨ mchNum = 2 := by
  cases point with
  | start => exact .inl order
  | connected => exact .inl order
  | refused => exact .inl order
  | decided => exact .inr order
  | waiting => exact .inr order
  | starting => exact .inr order.1
  | menu => exact .inr order.1
  | _ => exact order.elim

end Points

section Moves

variable {x : Host} {marks : List (Host × Mark)} {process after : Process} {own : List Mark}
variable {connected listening : Bool}

/-- What a move of the server thread leaves for its proof: where the thread stands then. -/
private theorem inOrder_server (order : InOrder x marks process)
    (server : ServerOrder x (marks ++ own.map (fun mark => (x, mark))) after)
    (client : after.client = process.client) (role : after.mchNum = process.mchNum)
    (still : process.server = .receiving → after.server = .receiving)
    (noHandler : ∀ uffd, Mark.handler uffd ∉ own) :
    InOrder x (marks ++ own.map (fun mark => (x, mark))) after where
  server := server
  client := by
    rw [client, role]
    exact order.client.imp still
  setUp := by
    apply order.setUp.append
    intro uffd member
    obtain ⟨mark, present, same⟩ := List.mem_map.mp member
    rw [(Prod.mk.inj same).2] at present
    exact absurd present (noHandler uffd)

theorem InOrder.serverMove {action : ServerAction} (order : InOrder x marks process)
    (move : ServerMove connected process action after own)
    (inTime : action = .testRole → process.mchNum ≠ 0) :
    InOrder x (marks ++ own.map (fun mark => (x, mark))) after := by
  have server := order.server
  cases move with
  | bind here =>
      simp only [ServerOrder, here] at server
      refine inOrder_server order ?_ rfl rfl (by simp [here]) (by simp)
      rw [List.map_nil, List.append_nil]
      exact server
  | listen here =>
      simp only [ServerOrder, here] at server
      refine inOrder_server order ?_ rfl rfl (by simp [here]) (by simp)
      rw [List.map_nil, List.append_nil]
      exact server
  | accept here _connected =>
      simp only [ServerOrder, here] at server
      refine inOrder_server order ?_ rfl rfl (by simp [here]) (by simp)
      rw [List.map_nil, List.append_nil]
      exact server
  | awaitHandshake here role =>
      simp only [ServerOrder, here] at server
      refine inOrder_server order ?_ rfl rfl (by simp [here]) (by simp)
      rw [List.map_nil, List.append_nil]
      exact ⟨role, server⟩
  | skipHandshake here role =>
      -- the role is set and is not 2, so this is machine 1
      rcases order.client.role with unset | second
      · exact absurd unset (inTime rfl)
      · exact absurd second role
  | takeHandshake here recvData =>
      simp only [ServerOrder, here] at server
      refine inOrder_server order ?_ rfl rfl (by simp [here]) (by simp)
      refine ⟨server.1, server.2.1, ?_⟩
      rw [takings_append, server.2.2]
      simp [takings]
  | takeMessage here recvData listMSI =>
      simp only [ServerOrder, here] at server
      refine inOrder_server order ?_ rfl rfl (fun _ => here) (by simp)
      simp only [ServerOrder, here]
      refine ⟨server.1, ?_, server.2.2.more _⟩
      rw [takings_append, List.head?_append, server.2.1]
      rfl
  | map here base _mapped =>
      simp only [ServerOrder, here] at server
      refine inOrder_server order ?_ rfl rfl (by simp [here]) (by simp)
      rw [List.map_nil, List.append_nil]
      refine ⟨server.1, server.2.2, ?_⟩
      intro page lower upper
      omega
  | initialisePage count here _more =>
      simp only [ServerOrder, here] at server
      refine inOrder_server order ?_ rfl rfl (by simp [here]) (by simp)
      rw [List.map_nil, List.append_nil]
      refine ⟨server.1, server.2.1, ?_⟩
      intro page lower upper
      by_cases last : page = count
      · rw [last]
        exact Function.update_self ..
      · exact (Function.update_of_ne last ..).trans (server.2.2 page lower (by omega))
  | initialised count here done =>
      simp only [ServerOrder, here] at server
      refine inOrder_server order ?_ rfl rfl (by simp [here]) (by simp)
      refine ⟨server.1, ?_, process.listMSI, process.tempData.pageCount, by simp, ?_⟩
      · rw [takings_append, List.head?_append, server.2.1]
        rfl
      · intro page lower upper
        exact server.2.2 page lower (by omega)
  | create here uffd =>
      simp only [ServerOrder, here] at server
      refine inOrder_server order ?_ rfl rfl (by simp [here]) (by simp)
      rw [List.map_nil, List.append_nil]
      exact server
  | register here =>
      simp only [ServerOrder, here] at server
      refine inOrder_server order ?_ rfl rfl (fun _ => rfl) (by simp)
      obtain ⟨role, first, listMSI, pageCount, member, invalid⟩ := server
      refine ⟨role, ?_, ⟨listMSI, pageCount, List.mem_append_left _ member, invalid⟩, by simp⟩
      rw [takings_append, List.head?_append, first]
      rfl

theorem InOrder.clientMove {action : ClientAction} (order : InOrder x marks process)
    (move : ClientMove listening process action after own)
    (inTime : action = .testAddr → ¬ process.server.SettingUp) :
    after.IsFirst ∨ InOrder x (marks ++ own.map (fun mark => (x, mark))) after := by
  have client := order.client
  cases move with
  | connect here _heard =>
      rw [here] at client
      right
      rw [List.map_nil, List.append_nil]
      exact ⟨order.server, client, order.setUp⟩
  | refused here _unheard =>
      rw [here] at client
      right
      rw [List.map_nil, List.append_nil]
      exact ⟨order.server, client, order.setUp⟩
  | second here =>
      rw [here] at client
      right
      rw [List.map_nil, List.append_nil]
      obtain ⟨unmapped, untaken, early⟩ := order.server.of_unset client
      refine ⟨?_, rfl, order.setUp⟩
      rcases early with point | point | point | point
      · simp only [ServerOrder, point]
        exact ⟨unmapped, untaken⟩
      · simp only [ServerOrder, point]
        exact ⟨unmapped, untaken⟩
      · simp only [ServerOrder, point]
        exact ⟨unmapped, untaken⟩
      · simp only [ServerOrder, point]
        exact ⟨unmapped, untaken⟩
  | first here => exact .inl ⟨rfl, by simp⟩
  | ask here role =>
      rw [here] at client
      have second : process.mchNum = 2 := client
      rw [second] at role
      exact absurd role (by decide)
  | wait here _role =>
      rw [here] at client
      right
      rw [List.map_nil, List.append_nil]
      exact ⟨order.server, client, order.setUp⟩
  | unmapped here _null =>
      rw [here] at client
      right
      rw [List.map_nil, List.append_nil]
      exact ⟨order.server, client, order.setUp⟩
  | mapped here mapped =>
      rw [here] at client
      right
      rw [List.map_nil, List.append_nil]
      exact ⟨order.server, ⟨client, order.server.of_mapped mapped (inTime rfl)⟩, order.setUp⟩
  | startHandler here =>
      rw [here] at client
      obtain ⟨role, receiving⟩ := client
      right
      refine ⟨order.server.more (by simp [takings]), ⟨role, receiving⟩, ?_⟩
      apply order.setUp.append
      intro uffd member
      have done := order.server
      simp only [ServerOrder, receiving] at done
      have passed : uffd = process.initUffd := by simpa using member
      rw [passed]
      exact done.2.2
  | command here data =>
      right
      rw [List.map_nil, List.append_nil]
      exact order
  | reached here =>
      rw [here] at client
      exact client.elim
  | retry here =>
      rw [here] at client
      exact client.elim
  | enterCount here count =>
      rw [here] at client
      exact client.elim
  | map here base =>
      rw [here] at client
      exact client.elim
  | initialisePage count here =>
      rw [here] at client
      exact client.elim
  | initialised count here =>
      rw [here] at client
      exact client.elim
  | send here =>
      rw [here] at client
      exact client.elim
  | create here uffd =>
      rw [here] at client
      exact client.elim
  | register here =>
      rw [here] at client
      exact client.elim

theorem ClientMove.isFirst {action : ClientAction}
    (move : ClientMove listening process action after own) (first : process.IsFirst) :
    after.IsFirst := by
  obtain ⟨role, notStart, notConnected, notRefused⟩ := first
  cases move with
  | connect here _heard => exact absurd here notStart
  | refused here _unheard => exact absurd here notStart
  | second here => exact absurd here notConnected
  | first here => exact absurd here notRefused
  | command here data => exact ⟨role, notStart, notConnected, notRefused⟩
  | _ => exact ⟨role, by simp, by simp, by simp⟩

theorem ServerMove.isFirst {action : ServerAction}
    (move : ServerMove connected process action after own) (first : process.IsFirst) :
    after.IsFirst := by
  obtain ⟨client, role⟩ := move.role
  unfold Process.IsFirst at first ⊢
  rw [client, role]
  exact first

end Moves

/-! ### Runs -/

def Orderly (x : Host) (marks : List (Host × Mark)) (s : Pair) : Prop :=
  (s.process x).IsFirst ∨ InOrder x marks (s.process x)

theorem Unstarted.orderly {s : Pair} (unstarted : Unstarted s) (x : Host) : Orderly x [] s := by
  right
  refine ⟨?_, ?_, ?_⟩
  · simp only [ServerOrder, unstarted.server x]
    exact ⟨unstarted.addr x, rfl⟩
  · rw [unstarted.client x]
    exact unstarted.mchNum x
  · intro before after uffd split
    exact absurd split (by simp)

theorem Orderly.step {x : Host} {marks shown : List (Host × Mark)} {s after : Pair}
    {action : Action} (orderly : Orderly x marks s) (inTime : InTime x s action)
    (accepted : startStep s action = some (after, shown)) : Orderly x (marks ++ shown) after := by
  have other := startStep_peer accepted
  cases action with
  | server z action =>
      obtain ⟨own, move, rfl⟩ := startStep_server accepted
      rcases Host.eq_or_eq_peer z x with rfl | rfl
      · rcases orderly with first | order
        · exact .inl (move.isFirst first)
        · right
          apply order.serverMove move
          intro same
          subst same
          exact inTime rfl
      · change after.process z.peer = s.process z.peer at other
        unfold Orderly
        rw [other]
        rcases orderly with first | order
        · exact .inl first
        · exact .inr ⟨order.server.more (takings_other (Host.ne_peer z) own), order.client,
            setUpFirst_other order.setUp (Host.ne_peer z) own⟩
  | client z action =>
      obtain ⟨own, move, rfl⟩ := startStep_client accepted
      rcases Host.eq_or_eq_peer z x with rfl | rfl
      · rcases orderly with first | order
        · exact .inl (move.isFirst first)
        · apply order.clientMove move
          intro same
          subst same
          exact inTime rfl
      · change after.process z.peer = s.process z.peer at other
        unfold Orderly
        rw [other]
        rcases orderly with first | order
        · exact .inl first
        · exact .inr ⟨order.server.more (takings_other (Host.ne_peer z) own), order.client,
            setUpFirst_other order.setUp (Host.ne_peer z) own⟩

/-- In a run that keeps out of the two windows of `x`: if `x` is machine 2, its server
thread has taken the first struct as the handshake, and its client thread started the
fault handler and entered the menu only after the set-up. -/
theorem initialised_before_use {start final : Pair} {actions : List Action}
    {marks : List (Host × Mark)} {x : Host} (unstarted : Unstarted start)
    (run : Run startStep (InTime x) start actions marks final)
    (second : (final.process x).mchNum = 2) : HandshakeFirst x marks ∧ SetUpFirst x marks := by
  have orderly : Orderly x marks final := by
    refine run.history_invariant (fun _ shown s => Orderly x shown s) (unstarted.orderly x) ?_
    intro _past before s action after shown orderly inTime accepted
    exact orderly.step inTime accepted
  rcases orderly with first | order
  · rw [first.1] at second
    cases second
  · exact ⟨order.server.handshakeFirst, order.setUp⟩

def orderlyStart : List Action :=
  [.server .one .bind, .server .one .listen, .client .one .connect, .client .one .assignRole,
    .client .two .connect, .client .two .assignRole, .client .two .testRole,
    .server .two .bind, .server .two .listen, .client .one .retry, .server .two .accept,
    .server .two .testRole, .client .one .testRole, .client .one (.enterCount 1),
    .client .one (.map 4096), .client .one .initialise, .client .one .initialise,
    .client .one .send, .server .two .read, .server .two (.map 4096),
    .server .two .initialise, .server .two .initialise, .server .two (.create 5),
    .server .two .register, .client .two .testAddr, .client .two .startHandler]

private theorem orderlyStart_run : (launch (InTime .two) orderlyStart).isSome = true := by
  decide

theorem initialised_before_use_orderlyStart :
    HandshakeFirst .two ((launch (InTime .two) orderlyStart).get orderlyStart_run).2 ∧
      SetUpFirst .two ((launch (InTime .two) orderlyStart).get orderlyStart_run).2 :=
  initialised_before_use zeroPair_unstarted (launch_run _ orderlyStart orderlyStart_run)
    (by decide)

/-- The retry of machine 1 reaches the server of process 2 before its client has set
`mch_num`; the handshake is then taken as a message. -/
def earlyAccept : List Action :=
  [.server .one .bind, .server .one .listen, .client .one .connect, .client .one .assignRole,
    .server .two .bind, .server .two .listen, .client .one .retry, .server .two .accept,
    .server .two .testRole, .client .two .connect, .client .two .assignRole,
    .client .one .testRole, .client .one (.enterCount 1), .client .one (.map 4096),
    .client .one .initialise, .client .one .initialise, .client .one .send,
    .server .two .read]

private theorem earlyAccept_run : (launch (fun _ _ => True) earlyAccept).isSome = true := by
  decide

theorem initialised_before_use_fails :
    ¬ ∀ (start final : Pair) (actions : List Action) (marks : List (Host × Mark)) (x : Host),
      Unstarted start → Run startStep (fun _ _ => True) start actions marks final →
      (final.process x).mchNum = 2 → (final.process x.peer).mchNum = 1 →
      HandshakeFirst x marks ∧ SetUpFirst x marks := by
  intro general
  have orderly := general _ _ _ _ .two zeroPair_unstarted
    (launch_run _ earlyAccept earlyAccept_run) (by decide) (by decide)
  exact orderly.1 (by decide)

end LKP.Dsm
