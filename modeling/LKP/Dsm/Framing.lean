import LKP.Library.RecordStream
import LKP.Dsm.StartUp

/-
The connection to `new_socket` as the stream of bytes it is.

Everywhere else structs arrive whole.  Here the peer's sends put the bytes of a
`proc_info` on the stream, and one `read` delivers any positive number of them
up to `sizeof(proc_info)`.  The thread of `server_socket` is that of the start-up
model; only what its two reads take is now decoded from the receive buffer.

Both machines are the same 64-bit build: `long` and pointers have eight bytes,
`int` has four, and the struct has no padding.
-/

set_option autoImplicit false

namespace LKP.Dsm

open TransitionRun
open RecordStream

/-! ### The bytes of a struct -/

abbrev Long := BitVec (8 * 8)
abbrev Signals := Fin maxSize.toNat → BitVec (8 * 4)

/-- The object representation of a `proc_info`, all fields of it. -/
structure ProcInfoObject where
  addr : Long
  pageNum : Long
  pageCount : Long
  readSignal : Signals
  pagefaultSignal : Signals
  busRdx : Signals
  invalidateSignal : Signals
  busUpgr : Signals
  flush : Signals
  accessPage : Long

def longCodec : Codec Long := .word 8

def signalsCodec : Codec Signals := .array (.word 4) maxSize.toNat

def procInfoCodec : Codec ProcInfoObject :=
  (longCodec.pair <| longCodec.pair <| longCodec.pair <|
    signalsCodec.pair <| signalsCodec.pair <| signalsCodec.pair <|
    signalsCodec.pair <| signalsCodec.pair <| signalsCodec.pair longCodec).map
  (fun (addr, pageNum, pageCount, readSignal, pagefaultSignal, busRdx, invalidateSignal,
      busUpgr, flush, accessPage) =>
    ⟨addr, pageNum, pageCount, readSignal, pagefaultSignal, busRdx, invalidateSignal, busUpgr,
      flush, accessPage⟩)
  (fun data => (data.addr, data.pageNum, data.pageCount, data.readSignal,
    data.pagefaultSignal, data.busRdx, data.invalidateSignal, data.busUpgr, data.flush,
    data.accessPage))
  (fun _ => rfl)

def sizeofProcInfo : Nat := procInfoCodec.size

example : sizeofProcInfo = 98336 := rfl

def Signals.read (array : Signals) (index : Int) : Int :=
  if within : index.toNat < maxSize.toNat then (array ⟨index.toNat, within⟩).toInt else 0

def ProcInfoObject.info (data : ProcInfoObject) : ProcInfo where
  addr := data.addr.toNat
  pageNum := data.pageNum.toInt
  pageCount := data.pageCount.toInt
  readSignal := Signals.read data.readSignal
  pagefaultSignal := Signals.read data.pagefaultSignal
  busRdx := Signals.read data.busRdx
  invalidateSignal := Signals.read data.invalidateSignal
  busUpgr := Signals.read data.busUpgr
  accessPage := data.accessPage.toInt

/-! ### The server on a byte stream -/

/-- The process with the local `recv_data` of `server_socket` and what the stream holds. -/
structure ByteServer where
  process : Process
  recvData : ReceiveBuffer sizeofProcInfo
  stream : List UInt8

def ByteServer.arrive (s : ByteServer) (data : ProcInfoObject) : ByteServer :=
  { s with stream := s.stream ++ procInfoCodec.encode data }

inductive ByteEvent where
  | send (data : ProcInfoObject)
  | read (count : Nat)
  | step (action : ServerAction)

/-- One event; the outputs are the structs that the thread copies to `temp_data` and acts on. -/
def byteStep : StepFunction ByteServer ByteEvent ProcInfoObject
  | s, .send data => some (s.arrive data, [])
  | s, .read count =>
      if 0 < count ∧ count ≤ sizeofProcInfo ∧ count ≤ s.stream.length then
        let buffer := s.recvData.deliver (s.stream.take count)
        let recvData := procInfoCodec.decode buffer.bytes
        -- the number of bytes is lost: `check` gets the value of `read(..) <= 0`
        match serverStep true [recvData.info] s.process .read with
        | none => none
        | some (process, _, _) =>
            some ({ process := process, recvData := buffer, stream := s.stream.drop count },
              [recvData])
      else none
  | s, .step action =>
      match serverStep true [] s.process action with
      | none => none
      | some (process, _, _) => some ({ s with process := process }, [])

/-- The same server on a queue of whole structs, whatever size a `read` has. -/
def structStep : StepFunction (Process × List ProcInfoObject) ByteEvent ProcInfoObject
  | (process, inbox), .send data => some ((process, inbox ++ [data]), [])
  | (process, inbox), .read _ =>
      match inbox with
      | [] => none
      | recvData :: rest =>
          match serverStep true [recvData.info] process .read with
          | none => none
          | some (process, _, _) => some ((process, rest), [recvData])
  | (process, inbox), .step action =>
      match serverStep true [] process action with
      | none => none
      | some (process, _, _) => some ((process, inbox), [])

def sentStructs (events : List ByteEvent) : List ProcInfoObject :=
  events.filterMap (fun event => match event with
    | .send data => some data
    | .read _ | .step _ => none)

def readSizes (events : List ByteEvent) : List Nat :=
  events.filterMap (fun event => match event with
    | .read count => some count
    | .send _ | .step _ => none)

def ByteEvent.Whole : ByteEvent → Prop
  | .read count => count = sizeofProcInfo
  | .send _ | .step _ => True

theorem whole_of_readSizes {events : List ByteEvent}
    (whole : ∀ count ∈ readSizes events, count = sizeofProcInfo) :
    ∀ event ∈ events, event.Whole := by
  intro event member
  cases event with
  | send data => trivial
  | step action => trivial
  | read count => exact whole count (List.mem_filterMap.mpr ⟨.read count, member, rfl⟩)

theorem sentStructs_append (events : List ByteEvent) (event : ByteEvent) :
    sentStructs (events ++ [event]) = sentStructs events ++ sentStructs [event] :=
  List.filterMap_append

theorem readSizes_append (events : List ByteEvent) (event : ByteEvent) :
    readSizes (events ++ [event]) = readSizes events ++ readSizes [event] :=
  List.filterMap_append

@[simp] theorem sentStructs_send (data : ProcInfoObject) :
    sentStructs [.send data] = [data] := rfl

@[simp] theorem sentStructs_read (count : Nat) : sentStructs [.read count] = [] := rfl

@[simp] theorem sentStructs_step (action : ServerAction) : sentStructs [.step action] = [] := rfl

@[simp] theorem readSizes_send (data : ProcInfoObject) : readSizes [.send data] = [] := rfl

@[simp] theorem readSizes_read (count : Nat) : readSizes [.read count] = [count] := rfl

@[simp] theorem readSizes_step (action : ServerAction) : readSizes [.step action] = [] := rfl

/-! ### What one event does -/

inductive ByteMove (s : ByteServer) :
    ByteEvent → ByteServer → List ProcInfoObject → Prop
  | send (data : ProcInfoObject) :
      ByteMove s (.send data) (s.arrive data) []
  | read (count : Nat) (bounded : count ≤ sizeofProcInfo) (available : count ≤ s.stream.length)
      (recvData : ProcInfoObject)
      (decoded : recvData =
        procInfoCodec.decode (s.recvData.deliver (s.stream.take count)).bytes)
      (process : Process) (rest : List ProcInfo) (marks : List Mark)
      (acted : serverStep true [recvData.info] s.process .read = some (process, rest, marks)) :
      ByteMove s (.read count)
        { process := process
          recvData := s.recvData.deliver (s.stream.take count)
          stream := s.stream.drop count } [recvData]
  | step (action : ServerAction) (process : Process) (rest : List ProcInfo) (marks : List Mark)
      (stepped : serverStep true [] s.process action = some (process, rest, marks)) :
      ByteMove s (.step action) { s with process := process } []

theorem ByteMove.of_step {s after : ByteServer} {event : ByteEvent}
    {acted : List ProcInfoObject} (accepted : byteStep s event = some (after, acted)) :
    ByteMove s event after acted := by
  cases event with
  | send data =>
      cases accepted
      exact .send data
  | read count =>
      simp only [byteStep] at accepted
      split at accepted
      · rename_i fits
        split at accepted
        · cases accepted
        · rename_i process rest marks taken
          cases accepted
          exact .read count fits.2.1 fits.2.2 _ rfl process rest marks taken
      · cases accepted
  | step action =>
      simp only [byteStep] at accepted
      split at accepted
      · cases accepted
      · rename_i process rest marks stepped
        cases accepted
        exact .step action process rest marks stepped

/-! ### Whole reads: the queue of structs is simulated -/

def ByteServer.Queued (s : ByteServer) (pending : List ProcInfoObject) : Prop :=
  s.stream = pending.flatMap procInfoCodec.encode

/-- A whole read at a struct boundary takes the first struct of the queue. -/
theorem decode_front {s : ByteServer} {pending : List ProcInfoObject} (queued : s.Queued pending)
    (available : sizeofProcInfo ≤ s.stream.length) :
    ∃ recvData rest, pending = recvData :: rest ∧
      procInfoCodec.decode (s.recvData.deliver (s.stream.take sizeofProcInfo)).bytes =
        recvData ∧
      s.stream.drop sizeofProcInfo = rest.flatMap procInfoCodec.encode := by
  cases pending with
  | nil =>
      have empty : s.stream = [] := queued
      rw [empty] at available
      exact absurd available (by decide)
  | cons recvData rest =>
      have shape : s.stream = procInfoCodec.encode recvData ++
          rest.flatMap procInfoCodec.encode := queued
      have width : (procInfoCodec.encode recvData).length = sizeofProcInfo :=
        procInfoCodec.length_encode recvData
      have front : s.stream.take sizeofProcInfo = procInfoCodec.encode recvData := by
        rw [shape, List.take_left' width]
      refine ⟨recvData, rest, rfl, ?_, ?_⟩
      · rw [front, s.recvData.deliver_whole width, procInfoCodec.decode_encode]
      · rw [shape, List.drop_left' width]

theorem whole_step_simulates {s after : ByteServer} {event : ByteEvent}
    {acted pending : List ProcInfoObject} (queued : s.Queued pending) (whole : event.Whole)
    (accepted : byteStep s event = some (after, acted)) :
    ∃ left, after.Queued left ∧
      structStep (s.process, pending) event = some ((after.process, left), acted) := by
  cases ByteMove.of_step accepted with
  | send data =>
      refine ⟨pending ++ [data], ?_, rfl⟩
      change s.stream ++ procInfoCodec.encode data = _
      rw [queued, List.flatMap_append, List.flatMap_singleton]
  | step action process rest marks stepped =>
      refine ⟨pending, queued, ?_⟩
      simp only [structStep, stepped]
  | read count bounded available recvData decoded process rest marks taken =>
      have full : count = sizeofProcInfo := whole
      subst full
      obtain ⟨front, left, rfl, first, remaining⟩ := decode_front queued available
      rw [first] at decoded
      subst decoded
      refine ⟨left, remaining, ?_⟩
      simp only [structStep, taken]

/-- A run whose reads are whole is a run of the server that takes whole structs. -/
theorem whole_run_simulates {start final : ByteServer} {events : List ByteEvent}
    {acted pending : List ProcInfoObject} (queued : start.Queued pending)
    (run : Run byteStep (fun _ event => event.Whole) start events acted final) :
    ∃ left, final.Queued left ∧
      Run structStep (fun _ _ => True) (start.process, pending) events acted
        (final.process, left) := by
  induction run with
  | stop => exact ⟨pending, queued, .stop⟩
  | extend _prior whole accepted ih =>
      obtain ⟨middle, middleQueued, structs⟩ := ih
      obtain ⟨left, leftQueued, next⟩ := whole_step_simulates middleQueued whole accepted
      exact ⟨left, leftQueued, .extend structs trivial next⟩

/-- Of whole structs none is lost, repeated or reordered. -/
theorem structs_in_order {process finalProcess : Process}
    {pending left acted : List ProcInfoObject} {events : List ByteEvent}
    (run : Run structStep (fun _ _ => True) (process, pending) events acted
      (finalProcess, left)) :
    pending ++ sentStructs events = acted ++ left := by
  refine run.history_invariant
    (fun past shown state => pending ++ sentStructs past = shown ++ state.2) ?_ ?_
  · exact List.append_nil pending
  · intro past shownBefore before event after shown balanced _allowed accepted
    obtain ⟨beforeProcess, inbox⟩ := before
    rw [sentStructs_append, ← List.append_assoc, balanced, List.append_assoc,
      List.append_assoc]
    congr 1
    cases event with
    | send data =>
        cases accepted
        rfl
    | step action =>
        simp only [structStep] at accepted
        split at accepted
        · cases accepted
        · cases accepted
          exact List.append_nil inbox
    | read count =>
        simp only [structStep] at accepted
        split at accepted
        · cases accepted
        · split at accepted
          · cases accepted
          · cases accepted
            exact List.append_nil _

/-! ### Any reads: bytes are counted -/

structure ByteCount (begun : Nat) (events : List ByteEvent) (acted : List ProcInfoObject)
    (s : ByteServer) : Prop where
  conserved : begun + sizeofProcInfo * (sentStructs events).length =
    (readSizes events).sum + s.stream.length
  onePerRead : acted.length = (readSizes events).length
  bounded : ∀ count ∈ readSizes events, count ≤ sizeofProcInfo

theorem byteCount {start final : ByteServer} {events : List ByteEvent}
    {acted : List ProcInfoObject}
    (run : Run byteStep (fun _ _ => True) start events acted final) :
    ByteCount start.stream.length events acted final := by
  refine run.history_invariant (ByteCount start.stream.length) ?_ ?_
  · constructor
    · exact (Nat.zero_add _).symm
    · rfl
    · intro count member
      exact absurd member List.not_mem_nil
  · intro past shownBefore before event after shown counted _allowed accepted
    have conserved := counted.conserved
    have onePerRead := counted.onePerRead
    have earlier := counted.bounded
    cases ByteMove.of_step accepted with
    | send data =>
        have grown : (before.arrive data).stream.length =
            before.stream.length + sizeofProcInfo := by
          rw [ByteServer.arrive, List.length_append, procInfoCodec.length_encode]
          rfl
        constructor
        · rw [sentStructs_append, readSizes_append]
          simp only [sentStructs_send, readSizes_send, List.length_append, List.append_nil,
            List.length_singleton, grown, Nat.mul_succ]
          omega
        · rw [readSizes_append, readSizes_send, List.append_nil, List.append_nil]
          exact onePerRead
        · rw [readSizes_append, readSizes_send, List.append_nil]
          exact earlier
    | step action process rest marks stepped =>
        constructor
        · rw [sentStructs_append, readSizes_append, sentStructs_step, readSizes_step,
            List.append_nil, List.append_nil]
          exact conserved
        · rw [readSizes_append, readSizes_step, List.append_nil, List.append_nil]
          exact onePerRead
        · rw [readSizes_append, readSizes_step, List.append_nil]
          exact earlier
    | read count bounded available recvData decoded process rest marks taken =>
        constructor
        · rw [sentStructs_append, readSizes_append]
          simp only [sentStructs_read, readSizes_read, List.append_nil, List.sum_append,
            List.sum_singleton, List.length_drop]
          omega
        · rw [readSizes_append, readSizes_read, List.length_append, List.length_append,
            onePerRead]
          rfl
        · rw [readSizes_append, readSizes_read]
          intro size member
          rcases List.mem_append.mp member with before | last
          · exact earlier size before
          · rw [List.mem_singleton.mp last]
            exact bounded

/-- When every byte has been read, whole structs in whole reads are the only way for the
numbers of structs and of reads to agree. -/
theorem whole_of_same_length {start final : ByteServer} {events : List ByteEvent}
    {acted : List ProcInfoObject}
    (run : Run byteStep (fun _ _ => True) start events acted final)
    (fresh : start.stream = []) (drained : final.stream = [])
    (same : acted.length = (sentStructs events).length) :
    ∀ count ∈ readSizes events, count = sizeofProcInfo := by
  have counted := byteCount run
  have conserved := counted.conserved
  rw [fresh, drained, List.length_nil, Nat.zero_add, Nat.add_zero, ← same,
    counted.onePerRead] at conserved
  exact full_of_sum counted.bounded conserved.symm

/-! ### What the server acts on -/

/-- While every read of a new connection returns `sizeof(proc_info)` bytes, the structs acted
on are the first of those sent; once everything sent has been read they are those sent if and
only if every read did so. -/
theorem acted_eq_sent_iff {start final : ByteServer} {events : List ByteEvent}
    {acted : List ProcInfoObject}
    (run : Run byteStep (fun _ _ => True) start events acted final)
    (fresh : start.stream = []) :
    ((∀ count ∈ readSizes events, count = sizeofProcInfo) → acted <+: sentStructs events) ∧
      (final.stream = [] →
        (acted = sentStructs events ↔
          ∀ count ∈ readSizes events, count = sizeofProcInfo)) := by
  have inOrder : (∀ count ∈ readSizes events, count = sizeofProcInfo) →
      ∃ left, final.Queued left ∧ sentStructs events = acted ++ left := by
    intro whole
    have queued : start.Queued [] := fresh
    obtain ⟨left, leftQueued, structs⟩ :=
      whole_run_simulates queued (run.of_events ByteEvent.Whole (whole_of_readSizes whole))
    exact ⟨left, leftQueued, structs_in_order structs⟩
  constructor
  · intro whole
    obtain ⟨left, _queued, balanced⟩ := inOrder whole
    exact ⟨left, balanced.symm⟩
  · intro drained
    constructor
    · intro same
      exact whole_of_same_length run fresh drained (congrArg List.length same)
    · intro whole
      obtain ⟨left, leftQueued, balanced⟩ := inOrder whole
      have nothing : left = [] := by
        cases left with
        | nil => rfl
        | cons data rest =>
            have shape : final.stream = procInfoCodec.encode data ++ _ := leftQueued
            have width : (procInfoCodec.encode data).length = sizeofProcInfo :=
              procInfoCodec.length_encode data
            have empty := (List.append_eq_nil_iff.mp (shape.symm.trans drained)).1
            rw [empty] at width
            exact absurd width (by decide)
      rw [balanced, nothing, List.append_nil]

/-! ### A connection with one command -/

theorem byteStep_send (s : ByteServer) (data : ProcInfoObject) :
    byteStep s (.send data) = some (s.arrive data, []) := rfl

theorem byteStep_whole {s : ByteServer} {data : ProcInfoObject} {behind : List UInt8}
    {process : Process} {rest : List ProcInfo} {marks : List Mark}
    (shape : s.stream = procInfoCodec.encode data ++ behind)
    (taken : serverStep true [data.info] s.process .read = some (process, rest, marks)) :
    byteStep s (.read sizeofProcInfo) =
      some ({ process := process
              recvData := s.recvData.deliver (procInfoCodec.encode data)
              stream := behind }, [data]) := by
  have width : (procInfoCodec.encode data).length = sizeofProcInfo :=
    procInfoCodec.length_encode data
  have fits : 0 < sizeofProcInfo ∧ sizeofProcInfo ≤ sizeofProcInfo ∧
      sizeofProcInfo ≤ s.stream.length := by
    rw [shape, List.length_append, width]
    exact ⟨by decide, Nat.le_refl _, Nat.le_add_right ..⟩
  have front : s.stream.take sizeofProcInfo = procInfoCodec.encode data := by
    rw [shape, List.take_left' width]
  have back : s.stream.drop sizeofProcInfo = behind := by
    rw [shape, List.drop_left' width]
  simp only [byteStep, if_pos fits, front, back, s.recvData.deliver_whole width,
    procInfoCodec.decode_encode, taken]

theorem byteStep_receiving {s : ByteServer} {count : Nat}
    (here : s.process.server = .receiving) (positive : 0 < count)
    (bounded : count ≤ sizeofProcInfo) (available : count ≤ s.stream.length) :
    ∃ after recvData, byteStep s (.read count) = some (after, [recvData]) ∧
      after.process.server = .receiving ∧ after.stream = s.stream.drop count := by
  simp only [byteStep, if_pos (And.intro positive (And.intro bounded available)), serverStep,
    here, reduceCtorEq, if_false, if_true]
  exact ⟨_, _, rfl, rfl, rfl⟩

theorem run_serverAction {start s : ByteServer} {events : List ByteEvent}
    {acted : List ProcInfoObject} {process : Process} {rest : List ProcInfo}
    {marks : List Mark} (run : Run byteStep (fun _ _ => True) start events acted s)
    (action : ServerAction)
    (stepped : serverStep true [] s.process action = some (process, rest, marks)) :
    Run byteStep (fun _ _ => True) start (events ++ [.step action]) acted
      { s with process := process } := by
  have accepted : byteStep s (.step action) = some ({ s with process := process }, []) := by
    simp only [byteStep, stepped]
  have extended := run.extend trivial accepted
  rwa [List.append_nil] at extended

def requestStruct : ProcInfoObject where
  addr := 4096
  pageNum := 0
  pageCount := 1
  readSignal := fun index => if index.val = 0 then 1 else 0
  pagefaultSignal := fun index => if index.val = 0 then 1 else 0
  busRdx := fun _ => 0
  invalidateSignal := fun _ => 0
  busUpgr := fun _ => 0
  flush := fun _ => 0
  accessPage := 0

def firstStruct : ProcInfoObject :=
  { requestStruct with readSignal := fun _ => 0, pagefaultSignal := fun _ => 0 }

def secondMachine : ByteServer where
  process := { zeroProcess with server := .handshake, client := .waiting, mchNum := 2 }
  recvData := ⟨List.replicate sizeofProcInfo 0, List.length_replicate⟩
  stream := []

def opening : List ByteEvent :=
  [.send firstStruct, .read sizeofProcInfo, .step (.map 4096), .step .initialise,
    .step .initialise, .step (.create 3), .step .register]

theorem opening_run : ∃ ready,
    Run byteStep (fun _ _ => True) secondMachine opening [firstStruct] ready ∧
      ready.process.server = .receiving ∧ ready.stream = [] := by
  have sent : Run byteStep (fun _ _ => True) secondMachine [.send firstStruct] []
      (secondMachine.arrive firstStruct) := Run.one trivial (byteStep_send ..)
  have shape : (secondMachine.arrive firstStruct).stream =
      procInfoCodec.encode firstStruct ++ [] := by
    rw [List.append_nil]
    exact List.nil_append _
  have greeted := sent.extend trivial (byteStep_whole shape rfl)
  have mapped := run_serverAction greeted (.map 4096) rfl
  have onePage := run_serverAction mapped .initialise rfl
  have allPages := run_serverAction onePage .initialise rfl
  have created := run_serverAction allPages (.create 3) rfl
  have registered := run_serverAction created .register rfl
  exact ⟨_, registered, rfl, rfl⟩

def wholeCommand : List ByteEvent :=
  opening ++ [.send requestStruct] ++ [.read sizeofProcInfo]

/-- The same command when the first read returns one byte of it. -/
def splitCommand : List ByteEvent :=
  opening ++ [.send requestStruct] ++ [.read 1] ++ [.read (sizeofProcInfo - 1)]

theorem acted_eq_sent_iff_wholeCommand : ∃ final,
    Run byteStep (fun _ _ => True) secondMachine wholeCommand
        [firstStruct, requestStruct] final ∧
      final.stream = [] ∧
      ((∀ count ∈ readSizes wholeCommand, count = sizeofProcInfo) →
        [firstStruct, requestStruct] <+: sentStructs wholeCommand) ∧
      ([firstStruct, requestStruct] = sentStructs wholeCommand ↔
        ∀ count ∈ readSizes wholeCommand, count = sizeofProcInfo) := by
  obtain ⟨ready, opened, here, empty⟩ := opening_run
  have sent := opened.extend trivial (byteStep_send ready requestStruct)
  have shape : (ready.arrive requestStruct).stream =
      procInfoCodec.encode requestStruct ++ [] := by
    rw [ByteServer.arrive, empty, List.nil_append, List.append_nil]
  have taken : ∃ process rest marks,
      serverStep true [requestStruct.info] ready.process .read =
        some (process, rest, marks) := by
    simp only [serverStep, here, reduceCtorEq, if_false, if_true]
    exact ⟨_, _, _, rfl⟩
  obtain ⟨process, rest, marks, taken⟩ := taken
  have received := sent.extend trivial (byteStep_whole shape taken)
  obtain ⟨prefixed, exactly⟩ := acted_eq_sent_iff received rfl
  exact ⟨_, received, rfl, prefixed, exactly rfl⟩

/-- A struct sent in one piece and received in two is acted on twice, as neither. -/
theorem acted_eq_sent_fails :
    ¬ ∀ (start final : ByteServer) (events : List ByteEvent) (acted : List ProcInfoObject),
      Run byteStep (fun _ _ => True) start events acted final →
      start.process.server = .handshake → start.process.mchNum = 2 → start.stream = [] →
      final.stream = [] → acted = sentStructs events := by
  intro framed
  obtain ⟨ready, opened, here, empty⟩ := opening_run
  have width : (procInfoCodec.encode requestStruct).length = sizeofProcInfo :=
    procInfoCodec.length_encode requestStruct
  have sent := opened.extend trivial (byteStep_send ready requestStruct)
  have available : (ready.arrive requestStruct).stream.length = sizeofProcInfo := by
    rw [ByteServer.arrive, empty, List.nil_append, width]
  have oneByte : 1 ≤ (ready.arrive requestStruct).stream.length := by
    rw [available]
    decide
  obtain ⟨middle, first, firstRead, looping, remaining⟩ :=
    byteStep_receiving (s := ready.arrive requestStruct) here Nat.one_pos (by decide) oneByte
  have begun := sent.extend trivial firstRead
  have left : middle.stream.length = sizeofProcInfo - 1 := by
    rw [remaining, List.length_drop, available]
  obtain ⟨final, second, secondRead, _looping, nothing⟩ :=
    byteStep_receiving looping (by decide) (Nat.sub_le sizeofProcInfo 1)
      (Nat.le_of_eq left.symm)
  have run := begun.extend trivial secondRead
  have drained : final.stream = [] := by
    rw [nothing, ← left, List.drop_length]
  have same := framed _ _ splitCommand _ run rfl rfl rfl drained
  have three : 3 = 2 := congrArg List.length same
  exact absurd three (by decide)

end LKP.Dsm
