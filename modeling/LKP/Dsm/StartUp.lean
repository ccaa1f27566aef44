import LKP.Dsm.PageCommand
import LKP.Dsm.Network

/-
Start-up of the two processes: the server and the client thread of each, step by
step, up to the receive loop and the menu.

A thread's next action is fixed by where it stands; what the system calls and the
user give it comes with the action.  A connection is there as soon as `connect`
succeeds, whether or not it has been accepted, and structs arrive whole.
-/

set_option autoImplicit false

namespace LKP.Dsm

open TransitionRun

inductive ServerPoint where
  | start
  | bound
  | listening
  | accepted
  | handshake
  | mapping
  | initialising (count : Int)
  | creating
  | registering
  | receiving
deriving DecidableEq

inductive ClientPoint where
  | start
  | connected
  | refused
  | retrying
  | decided
  | counting
  | mapping
  | initialising (count : Int)
  | sending
  | creating
  | registering
  | waiting
  | starting
  | menu
deriving DecidableEq

/-- The globals of one process, its local `send_data`, and its two threads. -/
structure Process where
  server : ServerPoint
  client : ClientPoint
  mchNum : Int
  addr : Int
  initUffd : Int
  tempData : ProcInfo
  sendData : ProcInfo
  listMSI : Int → MSIList

inductive ServerAction where
  | bind
  | listen
  | accept
  | testRole
  | read
  | map (base : Int)
  | initialise
  | create (uffd : Int)
  | register
deriving DecidableEq

inductive ClientAction where
  | connect
  | assignRole
  | retry
  | testRole
  | enterCount (count : Int)
  | map (base : Int)
  | initialise
  | send
  | create (uffd : Int)
  | register
  | testAddr
  | startHandler
  | command (data : ProcInfo)

inductive Mark where
  | handshake
  | transition
  | initialised (listMSI : Int → MSIList) (pageCount : Int)
  | registered (uffd : Int)
  | handler (uffd : Int)

/-- One action of `server_socket`: the process, what is left of the structs in flight to
it, and the marks. -/
def serverStep (peerConnected : Bool) (inbox : List ProcInfo) (process : Process) :
    ServerAction → Option (Process × List ProcInfo × List Mark)
  | .bind =>
      if process.server = .start then some ({ process with server := .bound }, inbox, [])
      else none
  | .listen =>
      if process.server = .bound then some ({ process with server := .listening }, inbox, [])
      else none
  | .accept =>
      if process.server = .listening ∧ peerConnected = true then
        some ({ process with server := .accepted }, inbox, [])
      else none
  | .testRole =>
      if process.server = .accepted then
        some ({ process with
          server := if process.mchNum = 2 then .handshake else .receiving }, inbox, [])
      else none
  | .read =>
      match inbox with
      | [] => none
      | recvData :: rest =>
          if process.server = .handshake then
            some ({ process with tempData := recvData, server := .mapping }, rest, [.handshake])
          else if process.server = .receiving then
            -- the reply, which only a menu reads, is left out
            some ({ process with
                tempData := recvData
                listMSI := Function.update process.listMSI recvData.pageNum
                  (serverEntry (process.listMSI recvData.pageNum) recvData) },
              rest, [.transition])
          else none
  | .map base =>
      if process.server = .mapping ∧ base ≠ 0 then
        some ({ process with addr := base, server := .initialising 0 }, inbox, [])
      else none
  | .initialise =>
      match process.server with
      | .initialising count =>
          if count < process.tempData.pageCount then
            some ({ process with
                listMSI := Function.update process.listMSI count .invalid
                server := .initialising (count + 1) },
              inbox, [])
          else
            some ({ process with server := .creating }, inbox,
              [.initialised process.listMSI process.tempData.pageCount])
      | _ => none
  | .create uffd =>
      if process.server = .creating ∧ uffd ≠ -1 then
        some ({ process with initUffd := uffd, server := .registering }, inbox, [])
      else none
  | .register =>
      if process.server = .registering then
        some ({ process with server := .receiving }, inbox, [.registered process.initUffd])
      else none

/-- One action of `client_socket`: the process, the structs it sends, and the marks. -/
def clientStep (peerListening : Bool) (process : Process) :
    ClientAction → Option (Process × List ProcInfo × List Mark)
  | .connect =>
      if process.client = .start then
        some ({ process with client := if peerListening then .connected else .refused }, [], [])
      else none
  | .assignRole =>
      if process.client = .connected then
        some ({ process with mchNum := 2, client := .decided }, [], [])
      else if process.client = .refused then
        some ({ process with mchNum := 1, client := .retrying }, [], [])
      else none
  | .retry =>
      if process.client = .retrying then
        some ({ process with client := if peerListening then .decided else .retrying }, [], [])
      else none
  | .testRole =>
      if process.client = .decided then
        some ({ process with
          client := if process.mchNum = 1 then .counting else .waiting }, [], [])
      else none
  | .enterCount count =>
      if process.client = .counting then
        some ({ process with
            sendData := { process.sendData with pageCount := count }
            tempData := { process.tempData with pageCount := count }
            client := .mapping },
          [], [])
      else none
  | .map base =>
      if process.client = .mapping ∧ base ≠ 0 then
        some ({ process with
            addr := base
            sendData := { process.sendData with addr := base }
            client := .initialising 0 },
          [], [])
      else none
  | .initialise =>
      match process.client with
      | .initialising count =>
          if count < process.tempData.pageCount then
            some ({ process with
                listMSI := Function.update process.listMSI count .invalid
                client := .initialising (count + 1) },
              [], [])
          else
            some ({ process with client := .sending }, [],
              [.initialised process.listMSI process.tempData.pageCount])
      | _ => none
  | .send =>
      if process.client = .sending then
        some ({ process with client := .creating }, [process.sendData], [])
      else none
  | .create uffd =>
      if process.client = .creating ∧ uffd ≠ -1 then
        some ({ process with initUffd := uffd, client := .registering }, [], [])
      else none
  | .register =>
      if process.client = .registering then
        some ({ process with client := .starting }, [], [.registered process.initUffd])
      else none
  | .testAddr =>
      -- `do { .. } while(addr == NULL)`
      if process.client = .waiting then
        some ({ process with client := if process.addr = 0 then .waiting else .starting },
          [], [])
      else none
  | .startHandler =>
      if process.client = .starting then
        some ({ process with client := .menu }, [], [.handler process.initUffd])
      else none
  | .command data =>
      -- of the menu's commands only the sends matter here
      if process.client = .menu then some (process, [data], []) else none

inductive ServerMove (peerConnected : Bool) (process : Process) :
    ServerAction → Process → List Mark → Prop
  | bind (here : process.server = .start) :
      ServerMove peerConnected process .bind { process with server := .bound } []
  | listen (here : process.server = .bound) :
      ServerMove peerConnected process .listen { process with server := .listening } []
  | accept (here : process.server = .listening) (connected : peerConnected = true) :
      ServerMove peerConnected process .accept { process with server := .accepted } []
  | awaitHandshake (here : process.server = .accepted) (role : process.mchNum = 2) :
      ServerMove peerConnected process .testRole { process with server := .handshake } []
  | skipHandshake (here : process.server = .accepted) (role : process.mchNum ≠ 2) :
      ServerMove peerConnected process .testRole { process with server := .receiving } []
  | takeHandshake (here : process.server = .handshake) (recvData : ProcInfo) :
      ServerMove peerConnected process .read
        { process with tempData := recvData, server := .mapping } [.handshake]
  | takeMessage (here : process.server = .receiving) (recvData : ProcInfo)
      (listMSI : Int → MSIList) :
      ServerMove peerConnected process .read
        { process with tempData := recvData, listMSI := listMSI } [.transition]
  | map (here : process.server = .mapping) (base : Int) (mapped : base ≠ 0) :
      ServerMove peerConnected process (.map base)
        { process with addr := base, server := .initialising 0 } []
  | initialisePage (count : Int) (here : process.server = .initialising count)
      (more : count < process.tempData.pageCount) :
      ServerMove peerConnected process .initialise
        { process with
          listMSI := Function.update process.listMSI count .invalid
          server := .initialising (count + 1) } []
  | initialised (count : Int) (here : process.server = .initialising count)
      (done : ¬ count < process.tempData.pageCount) :
      ServerMove peerConnected process .initialise { process with server := .creating }
        [.initialised process.listMSI process.tempData.pageCount]
  | create (here : process.server = .creating) (uffd : Int) :
      ServerMove peerConnected process (.create uffd)
        { process with initUffd := uffd, server := .registering } []
  | register (here : process.server = .registering) :
      ServerMove peerConnected process .register { process with server := .receiving }
        [.registered process.initUffd]

theorem ServerMove.of_step {peerConnected : Bool} {inbox rest : List ProcInfo}
    {process after : Process} {action : ServerAction} {marks : List Mark}
    (accepted : serverStep peerConnected inbox process action = some (after, rest, marks)) :
    ServerMove peerConnected process action after marks := by
  cases action with
  | bind =>
      simp only [serverStep] at accepted
      split at accepted
      · cases accepted
        exact .bind ‹_›
      · cases accepted
  | listen =>
      simp only [serverStep] at accepted
      split at accepted
      · cases accepted
        exact .listen ‹_›
      · cases accepted
  | accept =>
      simp only [serverStep] at accepted
      split at accepted
      · rename_i ready
        cases accepted
        exact .accept ready.1 ready.2
      · cases accepted
  | testRole =>
      simp only [serverStep] at accepted
      split at accepted
      · rename_i here
        cases accepted
        by_cases role : process.mchNum = 2
        · rw [if_pos role]
          exact .awaitHandshake here role
        · rw [if_neg role]
          exact .skipHandshake here role
      · cases accepted
  | read =>
      simp only [serverStep] at accepted
      split at accepted
      · cases accepted
      · split at accepted
        · cases accepted
          exact .takeHandshake ‹_› _
        · split at accepted
          · cases accepted
            exact .takeMessage ‹_› _ _
          · cases accepted
  | map base =>
      simp only [serverStep] at accepted
      split at accepted
      · rename_i ready
        cases accepted
        exact .map ready.1 base ready.2
      · cases accepted
  | initialise =>
      simp only [serverStep] at accepted
      split at accepted
      · rename_i count here
        split at accepted
        · cases accepted
          exact .initialisePage count here ‹_›
        · cases accepted
          exact .initialised count here ‹_›
      · cases accepted
  | create uffd =>
      simp only [serverStep] at accepted
      split at accepted
      · rename_i ready
        cases accepted
        exact .create ready.1 uffd
      · cases accepted
  | register =>
      simp only [serverStep] at accepted
      split at accepted
      · cases accepted
        exact .register ‹_›
      · cases accepted

theorem ServerMove.role {peerConnected : Bool} {process after : Process}
    {action : ServerAction} {marks : List Mark}
    (move : ServerMove peerConnected process action after marks) :
    after.client = process.client ∧ after.mchNum = process.mchNum := by
  cases move with
  | _ => exact ⟨rfl, rfl⟩

inductive ClientMove (peerListening : Bool) (process : Process) :
    ClientAction → Process → List Mark → Prop
  | connect (here : process.client = .start) (heard : peerListening = true) :
      ClientMove peerListening process .connect { process with client := .connected } []
  | refused (here : process.client = .start) (unheard : peerListening = false) :
      ClientMove peerListening process .connect { process with client := .refused } []
  | second (here : process.client = .connected) :
      ClientMove peerListening process .assignRole
        { process with mchNum := 2, client := .decided } []
  | first (here : process.client = .refused) :
      ClientMove peerListening process .assignRole
        { process with mchNum := 1, client := .retrying } []
  | reached (here : process.client = .retrying) :
      ClientMove peerListening process .retry { process with client := .decided } []
  | retry (here : process.client = .retrying) :
      ClientMove peerListening process .retry { process with client := .retrying } []
  | ask (here : process.client = .decided) (role : process.mchNum = 1) :
      ClientMove peerListening process .testRole { process with client := .counting } []
  | wait (here : process.client = .decided) (role : process.mchNum ≠ 1) :
      ClientMove peerListening process .testRole { process with client := .waiting } []
  | enterCount (here : process.client = .counting) (count : Int) :
      ClientMove peerListening process (.enterCount count)
        { process with
          sendData := { process.sendData with pageCount := count }
          tempData := { process.tempData with pageCount := count }
          client := .mapping } []
  | map (here : process.client = .mapping) (base : Int) :
      ClientMove peerListening process (.map base)
        { process with
          addr := base
          sendData := { process.sendData with addr := base }
          client := .initialising 0 } []
  | initialisePage (count : Int) (here : process.client = .initialising count) :
      ClientMove peerListening process .initialise
        { process with
          listMSI := Function.update process.listMSI count .invalid
          client := .initialising (count + 1) } []
  | initialised (count : Int) (here : process.client = .initialising count) :
      ClientMove peerListening process .initialise { process with client := .sending }
        [.initialised process.listMSI process.tempData.pageCount]
  | send (here : process.client = .sending) :
      ClientMove peerListening process .send { process with client := .creating } []
  | create (here : process.client = .creating) (uffd : Int) :
      ClientMove peerListening process (.create uffd)
        { process with initUffd := uffd, client := .registering } []
  | register (here : process.client = .registering) :
      ClientMove peerListening process .register { process with client := .starting }
        [.registered process.initUffd]
  | unmapped (here : process.client = .waiting) (null : process.addr = 0) :
      ClientMove peerListening process .testAddr { process with client := .waiting } []
  | mapped (here : process.client = .waiting) (mapped : process.addr ≠ 0) :
      ClientMove peerListening process .testAddr { process with client := .starting } []
  | startHandler (here : process.client = .starting) :
      ClientMove peerListening process .startHandler { process with client := .menu }
        [.handler process.initUffd]
  | command (here : process.client = .menu) (data : ProcInfo) :
      ClientMove peerListening process (.command data) process []

theorem ClientMove.of_step {peerListening : Bool} {process after : Process}
    {action : ClientAction} {sent : List ProcInfo} {marks : List Mark}
    (accepted : clientStep peerListening process action = some (after, sent, marks)) :
    ClientMove peerListening process action after marks := by
  cases action with
  | connect =>
      simp only [clientStep] at accepted
      split at accepted
      · rename_i here
        cases accepted
        cases peerListening with
        | true => exact .connect here rfl
        | false => exact .refused here rfl
      · cases accepted
  | assignRole =>
      simp only [clientStep] at accepted
      split at accepted
      · cases accepted
        exact .second ‹_›
      · split at accepted
        · cases accepted
          exact .first ‹_›
        · cases accepted
  | retry =>
      simp only [clientStep] at accepted
      split at accepted
      · rename_i here
        cases accepted
        cases peerListening with
        | true => exact .reached here
        | false => exact .retry here
      · cases accepted
  | testRole =>
      simp only [clientStep] at accepted
      split at accepted
      · rename_i here
        cases accepted
        by_cases role : process.mchNum = 1
        · rw [if_pos role]
          exact .ask here role
        · rw [if_neg role]
          exact .wait here role
      · cases accepted
  | enterCount count =>
      simp only [clientStep] at accepted
      split at accepted
      · cases accepted
        exact .enterCount ‹_› count
      · cases accepted
  | map base =>
      simp only [clientStep] at accepted
      split at accepted
      · rename_i ready
        cases accepted
        exact .map ready.1 base
      · cases accepted
  | initialise =>
      simp only [clientStep] at accepted
      split at accepted
      · rename_i count here
        split at accepted
        · cases accepted
          exact .initialisePage count here
        · cases accepted
          exact .initialised count here
      · cases accepted
  | send =>
      simp only [clientStep] at accepted
      split at accepted
      · cases accepted
        exact .send ‹_›
      · cases accepted
  | create uffd =>
      simp only [clientStep] at accepted
      split at accepted
      · rename_i ready
        cases accepted
        exact .create ready.1 uffd
      · cases accepted
  | register =>
      simp only [clientStep] at accepted
      split at accepted
      · cases accepted
        exact .register ‹_›
      · cases accepted
  | testAddr =>
      simp only [clientStep] at accepted
      split at accepted
      · rename_i here
        cases accepted
        by_cases null : process.addr = 0
        · rw [if_pos null]
          exact .unmapped here null
        · rw [if_neg null]
          exact .mapped here null
      · cases accepted
  | startHandler =>
      simp only [clientStep] at accepted
      split at accepted
      · cases accepted
        exact .startHandler ‹_›
      · cases accepted
  | command data =>
      simp only [clientStep] at accepted
      split at accepted
      · cases accepted
        exact .command ‹_› data
      · cases accepted

structure Pair where
  process : Host → Process
  inbox : Host → List ProcInfo

inductive Action where
  | server (x : Host) (action : ServerAction)
  | client (x : Host) (action : ClientAction)

/-- `listen` has been called: a `connect` to this server succeeds. -/
def Process.listens (process : Process) : Bool :=
  decide (process.server ≠ .start ∧ process.server ≠ .bound)

def Process.connects (process : Process) : Bool :=
  decide (process.client ≠ .start ∧ process.client ≠ .refused ∧ process.client ≠ .retrying)

def Pair.put (s : Pair) (x : Host) (process : Process) : Pair :=
  { s with process := Function.update s.process x process }

def startStep : StepFunction Pair Action (Host × Mark)
  | s, .server x action =>
      match serverStep (s.process x.peer).connects (s.inbox x) (s.process x) action with
      | none => none
      | some (process, rest, marks) =>
          some ({ s.put x process with inbox := Function.update s.inbox x rest },
            marks.map (fun mark => (x, mark)))
  | s, .client x action =>
      match clientStep (s.process x.peer).listens (s.process x) action with
      | none => none
      | some (process, sent, marks) =>
          some ({ s.put x process with
              inbox := Function.update s.inbox x.peer (s.inbox x.peer ++ sent) },
            marks.map (fun mark => (x, mark)))

structure Unstarted (s : Pair) : Prop where
  server : ∀ x, (s.process x).server = .start
  client : ∀ x, (s.process x).client = .start
  mchNum : ∀ x, (s.process x).mchNum = 0
  addr : ∀ x, (s.process x).addr = 0
  inboxEmpty : ∀ x, s.inbox x = []

/-- A start in which the uninitialised `send_data` happens to be zero. -/
def zeroInfo : ProcInfo where
  addr := 0
  pageNum := 0
  pageCount := 0
  readSignal := fun _ => 0
  pagefaultSignal := fun _ => 0
  busRdx := fun _ => 0
  invalidateSignal := fun _ => 0
  busUpgr := fun _ => 0
  accessPage := 0

def zeroProcess : Process where
  server := .start
  client := .start
  mchNum := 0
  addr := 0
  initUffd := 0
  tempData := zeroInfo
  sendData := zeroInfo
  listMSI := fun _ => ⟨false, false, false⟩

def zeroPair : Pair where
  process := fun _ => zeroProcess
  inbox := fun _ => []

theorem zeroPair_unstarted : Unstarted zeroPair where
  server := fun _ => rfl
  client := fun _ => rfl
  mchNum := fun _ => rfl
  addr := fun _ => rfl
  inboxEmpty := fun _ => rfl

section Launch

variable (allowed : Pair → Action → Prop) [∀ s action, Decidable (allowed s action)]

def launch (actions : List Action) : Option (Pair × List (Host × Mark)) :=
  execute startStep (fun s action => decide (allowed s action)) zeroPair actions

theorem launch_run (actions : List Action) (runs : (launch allowed actions).isSome = true) :
    Run startStep allowed zeroPair actions ((launch allowed actions).get runs).2
      ((launch allowed actions).get runs).1 :=
  (Run.of_executes _ runs).weaken (fun _ _ checked => of_decide_eq_true checked)

end Launch

def Action.host : Action → Host
  | .server x _ | .client x _ => x

@[simp] theorem Pair.put_self (s : Pair) (x : Host) (process : Process) :
    (s.put x process).process x = process :=
  Function.update_self ..

@[simp] theorem Pair.put_peer (s : Pair) (x : Host) (process : Process) :
    (s.put x process).process x.peer = s.process x.peer :=
  Function.update_of_ne (Host.peer_ne x) ..

theorem startStep_peer {s after : Pair} {action : Action} {marks : List (Host × Mark)}
    (accepted : startStep s action = some (after, marks)) :
    after.process action.host.peer = s.process action.host.peer := by
  cases action with
  | server x action =>
      simp only [startStep] at accepted
      split at accepted
      · cases accepted
      · cases accepted
        exact s.put_peer ..
  | client x action =>
      simp only [startStep] at accepted
      split at accepted
      · cases accepted
      · cases accepted
        exact s.put_peer ..

theorem startStep_server {s after : Pair} {x : Host} {action : ServerAction}
    {marks : List (Host × Mark)}
    (accepted : startStep s (.server x action) = some (after, marks)) :
    ∃ own, ServerMove (s.process x.peer).connects (s.process x) action (after.process x) own ∧
      marks = own.map (fun mark => (x, mark)) := by
  simp only [startStep] at accepted
  split at accepted
  · cases accepted
  · rename_i process rest own moved
    cases accepted
    refine ⟨own, ?_, rfl⟩
    change ServerMove _ _ _ ((s.put x process).process x) own
    rw [s.put_self]
    exact .of_step moved

theorem startStep_client {s after : Pair} {x : Host} {action : ClientAction}
    {marks : List (Host × Mark)}
    (accepted : startStep s (.client x action) = some (after, marks)) :
    ∃ own, ClientMove (s.process x.peer).listens (s.process x) action (after.process x) own ∧
      marks = own.map (fun mark => (x, mark)) := by
  simp only [startStep] at accepted
  split at accepted
  · cases accepted
  · rename_i process sent own moved
    cases accepted
    refine ⟨own, ?_, rfl⟩
    change ClientMove _ _ _ ((s.put x process).process x) own
    rw [s.put_self]
    exact .of_step moved

end LKP.Dsm
