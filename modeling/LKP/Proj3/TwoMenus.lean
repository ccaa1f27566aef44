import LKP.Library.LockStep
import LKP.Proj3.PageOffsets

/-
The two menus of part 4: that of machine 1 in `server_socket`, and that of machine 2 in
`client_socket`.

They differ in what they do when all pages are chosen.  The first raises `BusRd` when it
reads them, and the second takes the length of its last loop from a struct that is zero
there.
-/

set_option autoImplicit false

namespace LKP.Proj3

open CBuffer CIntegers CountedLoop TransitionRun LockStep

/-! ### What the menus work on -/

structure MSIList where
  M : Bool
  S : Bool
  I : Bool
deriving DecidableEq

structure BusInfo where
  busRd : Int32
  busRdX : Int32
  busUpgr : Int32
  curVar : Int32
  uffd : Int64
deriving DecidableEq

/-- The globals of a machine that its menu changes; `addr` is what its mapping holds. -/
structure Machine where
  statesList : Int → MSIList
  addr : Buffer
  busSignal : BusInfo

/-- `stuff`, as far as a menu reads it: `data` and `recv_data`. -/
structure PageCount where
  pgSize : UInt64
  length : UInt64

inductive Command
  | read (accessvar : UInt64)
  | write (accessvar : UInt64) (message : List UInt8)
  | view

/-- The lines that are printed, by the values that they show.  Their fixed texts are left out;
those of `readingPage` and `readingAllPages` differ in the two menus. -/
inductive Line
  | readingPage (accessvar : UInt64) (S M : Bool)
  | checkLocalCopy
  | invalidState
  | generateBusRd (signal : Int32)
  | readingAllPages
  | readingTheString (c : UInt8)
  | cantRead
  | hereWith (accessvar : UInt64)
  | readAddress (offset : Int)
  | cantWrite
  | page (start : Int) (states : MSIList)

/-! ### The loops -/

/-- `while (count < pg_size) { …; count++; }`, from 0 on. -/
def countLoop {State : Type} (pgSize : UInt64) (body : Int32 → State → State) (fuel : Nat)
    (state : State) : Option State :=
  countedLoop (fun count => widen count < pgSize) (fun count => count + 1) body fuel 0 state

def shareAll (pgSize : UInt64) (fuel : Nat) (statesList : Int → MSIList) :
    Option (Int → MSIList) :=
  countLoop pgSize
    (fun count statesList => Function.update statesList count.toInt ⟨false, true, false⟩)
    fuel statesList

def readStrings (length : UInt64) (fuel : Nat) (addr : Buffer) : Option (List Line) :=
  pageLoop length (fun k lines => lines ++ [.readingTheString (addr k.toInt)]) fuel []

/-- `memset(addr+l, 0, sizeof(page_size))` on every page; a `size_t` has 8 bytes. -/
def clearPages (length : UInt64) (fuel : Nat) (addr : Buffer) : Option Buffer :=
  pageLoop length (fun l addr => memset addr l.toInt 0 8) fuel addr

/-- `memcpy(addr+j, message, strlen(message))` on every page. -/
def copyPages (length : UInt64) (message : List UInt8) (fuel : Nat) (addr : Buffer) :
    Option Buffer :=
  pageLoop length (fun j addr => memcpy addr j.toInt (strBytes message)) fuel addr

/-! ### The menus -/

def Machine.raiseBusRd (machine : Machine) : Machine :=
  { machine with busSignal := { machine.busSignal with busRd := 1 } }

/-- `states_list[accessvar]`; the number -1 is in front of the list. -/
def Machine.statesAt (machine : Machine) (accessvar : UInt64) : MSIList :=
  machine.statesList accessvar.toInt64.toInt

/-- The command `r` up to the branch for all pages, which is given. -/
def readCommand (allPages : Machine → Option (Machine × List Line)) (mch : PageCount)
    (machine : Machine) (accessvar : UInt64) : Option (Machine × List Line) :=
  let machine :=
    { machine with busSignal := { machine.busSignal with curVar := accessvar.toInt64.toInt32 } }
  if accessvar < mch.pgSize || accessvar == -1 then
    let states := machine.statesAt accessvar
    let offset := intAdd 0 (accessvar * pageSize)
    let reading := Line.readingPage accessvar states.S states.M
    let string := Line.readingTheString (machine.addr offset.toInt)
    if states.S || states.M then
      some (machine, [reading, .checkLocalCopy, string])
    else if states.I then
      some (machine.raiseBusRd, [reading, .invalidState, .generateBusRd 1, string])
    else if accessvar == -1 then
      (allPages machine).map (fun (machine, lines) => (machine, reading :: lines))
    else some (machine, [reading])
  else some (machine, [.cantRead])

def writeCommand (allPages : Machine → List UInt8 → Option (Machine × List Line))
    (mch : PageCount) (machine : Machine) (accessvar : UInt64) (message : List UInt8) :
    Option (Machine × List Line) :=
  if accessvar < mch.pgSize || accessvar == -1 then
    let states := machine.statesAt accessvar
    let offset := (intAdd 0 (accessvar * pageSize)).toInt
    if states.M then
      some ({ machine with
                addr := memcpy (memset machine.addr offset 0 8) offset (strBytes message) },
        [.hereWith accessvar, .readAddress 0])
    else if states.S || states.I then
      some ({ machine with busSignal := { machine.busSignal with busRdX := 1 } }, [])
    else if accessvar == -1 then allPages machine message
    else some (machine, [])
  else some (machine, [.cantWrite])

def viewCommand (mch : PageCount) (fuel : Nat) (machine : Machine) :
    Option (Machine × List Line) :=
  (countLoop mch.pgSize
    (fun start lines => lines ++ [.page start.toInt (machine.statesList start.toInt)]) fuel
    []).map (fun lines => (machine, lines))

def readAllPages (mch : PageCount) (fuel : Nat) (machine : Machine) :
    Option (Machine × List Line) :=
  match shareAll mch.pgSize fuel machine.statesList, readStrings mch.length fuel machine.addr with
  | some statesList, some lines =>
      some ({ machine with statesList := statesList }, .readingAllPages :: lines)
  | _, _ => none

def writeAllPages (clearLength copyLength : UInt64) (fuel : Nat) (machine : Machine)
    (message : List UInt8) : Option (Machine × List Line) :=
  match clearPages clearLength fuel machine.addr with
  | none => none
  | some addr =>
      (copyPages copyLength message fuel addr).map
        (fun addr => ({ machine with addr := addr }, []))

def serverMenu (data : PageCount) (fuel : Nat) : StepFunction Machine Command Line :=
  fun machine command =>
    match command with
    | .read accessvar =>
        -- `bus_signal.BusRd = 1` comes first when all pages are read
        readCommand (fun machine => readAllPages data fuel machine.raiseBusRd) data machine
          accessvar
    | .write accessvar message =>
        writeCommand (writeAllPages data.length data.length fuel) data machine accessvar message
    | .view => viewCommand data fuel machine

/-- The menu of `client_socket`; its last loop stops at `data.length`. -/
def clientMenu (data recvData : PageCount) (fuel : Nat) : StepFunction Machine Command Line :=
  fun machine command =>
    match command with
    | .read accessvar => readCommand (readAllPages recvData fuel) recvData machine accessvar
    | .write accessvar message =>
        writeCommand (writeAllPages recvData.length data.length fuel) recvData machine accessvar
          message
    | .view => viewCommand recvData fuel machine

def counted (pgSize : UInt64) : PageCount := { pgSize := pgSize, length := pgSize * pageSize }

/-- `data` on machine 2. -/
def unset : PageCount := { pgSize := 0, length := 0 }

/-- The commands on which the menus do the same: all pages are not read before `BusRd` is
raised, and nothing is written to all of them. -/
def Meets (pgSize : UInt64) (machine : Machine) : Command → Prop
  | .read accessvar => accessvar = -1 → machine.busSignal.busRd = 1
  | .write accessvar message => accessvar = -1 → pgSize = 0 ∨ strBytes message = []
  | .view => True

/-- What is in front of the list reads as three flags that are not set. -/
def Machine.NoneInFront (machine : Machine) : Prop :=
  machine.statesList (-1) = ⟨false, false, false⟩

/-! ### What the loops do -/

section Loops

variable {pgSize : UInt64} {fuel : Nat}

theorem widen_ofNat {count : Nat} (small : count < 2 ^ 31) :
    (widen (Int32.ofNat count)).toNat = count := by
  have value := Int32.toInt_ofNat_of_lt small
  have wide := @widen_toNat (Int32.ofNat count) (by omega)
  omega

theorem countLoop_rounds (small : pgSize.toNat ≤ 1024) (enough : pgSize.toNat < fuel)
    {State : Type} (body : Int32 → State → State) (state : State) :
    countLoop pgSize body fuel state =
      some ((List.range pgSize.toNat).foldl
        (fun state count => body (Int32.ofNat count) state) state) := by
  have below : ∀ count ≤ pgSize.toNat, widen (Int32.ofNat count) < pgSize ↔
      count < pgSize.toNat := by
    intro count within
    have narrow : count < 2 ^ 31 := by omega
    rw [UInt64.lt_iff_toNat_lt, widen_ofNat narrow]
  apply countedLoop_rounds Int32.ofNat
  · intro count _
    rw [Int32.ofNat_add]
    rfl
  · intro count before
    exact decide_eq_true ((below count (Nat.le_of_lt before)).mpr before)
  · exact decide_eq_false (fun less =>
      Nat.lt_irrefl _ ((below pgSize.toNat (Nat.le_refl _)).mp less))
  · exact enough

theorem counted_length (small : pgSize.toNat ≤ 1024) :
    (counted pgSize).length.toNat = pgSize.toNat * 4096 :=
  mapped_length (fun _ => 0) (Nat.le_trans small (by decide))

theorem pageLoop_counted (small : pgSize.toNat ≤ 1024) (enough : pgSize.toNat < fuel)
    {State : Type} (body : Int32 → State → State) (state : State) :
    pageLoop (counted pgSize).length body fuel state =
      some ((List.range pgSize.toNat).foldl
        (fun state page => body (intOffset page) state) state) :=
  pageLoop_pages (Nat.le_trans small (by decide)) (counted_length small) enough body state

theorem pageLoop_unset (enough : pgSize.toNat < fuel) {State : Type}
    (body : Int32 → State → State) (state : State) :
    pageLoop unset.length body fuel state = some state := by
  have noPages : unset.length.toNat = 0 * 4096 := by decide
  exact pageLoop_pages (Nat.zero_le _) noPages (Nat.zero_lt_of_lt enough) body state

theorem shareAll_front (small : pgSize.toNat ≤ 1024) (enough : pgSize.toNat < fuel)
    (statesList : Int → MSIList) :
    ∃ after, shareAll pgSize fuel statesList = some after ∧ after (-1) = statesList (-1) := by
  refine ⟨_, countLoop_rounds small enough _ statesList, ?_⟩
  obtain ⟨pages, bound⟩ : ∃ pages, pages = pgSize.toNat := ⟨_, rfl⟩
  rw [← bound] at small ⊢
  clear bound
  induction pages with
  | zero => rfl
  | succ pages ih =>
      have value := @Int32.toInt_ofNat_of_lt pages (by omega)
      rw [List.range_succ, List.foldl_concat, Function.update_of_ne (by omega)]
      exact ih (by omega)

/-- Only the first round of a loop over the pages reaches the first byte. -/
theorem foldl_firstByte (act : Int → Buffer → Buffer) {pages : Nat} (positive : 0 < pages)
    (few : pages ≤ 2 ^ 19)
    (later : ∀ offset addr, 0 < offset → act offset addr 0 = addr 0) (addr : Buffer) :
    (List.range pages).foldl (fun addr page => act (intOffset page).toInt addr) addr 0 =
      act 0 addr 0 := by
  induction pages with
  | zero => exact absurd positive (Nat.lt_irrefl 0)
  | succ pages ih =>
      rw [List.range_succ, List.foldl_concat]
      by_cases first : pages = 0
      · rw [first]
        rfl
      · have offset := @intOffset_of_small pages (by omega)
        rw [later _ _ (by omega)]
        exact ih (by omega) (by omega)

theorem memcpy_nil (buffer : Buffer) (offset : Int) : memcpy buffer offset [] = buffer := by
  funext index
  apply memcpy_outside
  rw [List.length_nil]
  omega

/-- After the first loop of a write to all pages the first byte is zero. -/
theorem clearPages_firstByte (small : pgSize.toNat ≤ 1024) (enough : pgSize.toNat < fuel)
    (addr : Buffer) :
    ∃ after, clearPages (counted pgSize).length fuel addr = some after ∧
      (0 < pgSize.toNat → after 0 = 0) := by
  refine ⟨_, pageLoop_counted small enough _ addr, ?_⟩
  intro positive
  rw [foldl_firstByte (fun offset addr => memset addr offset 0 8) positive (by omega)]
  · exact memset_inside addr 0 0 8 (Int.le_refl 0) (by decide)
  · exact fun offset addr above => memset_outside addr offset 0 8 (.inl above)

/-- The second loop leaves everything as it is when there is nothing to write; otherwise the
first byte is no longer zero. -/
theorem copyPages_firstByte (small : pgSize.toNat ≤ 1024) (enough : pgSize.toNat < fuel)
    (message : List UInt8) (addr : Buffer) (cleared : 0 < pgSize.toNat → addr 0 = 0) :
    ∃ after, copyPages (counted pgSize).length message fuel addr = some after ∧
      (after = addr ↔ pgSize = 0 ∨ strBytes message = []) := by
  refine ⟨_, pageLoop_counted small enough _ addr, ?_⟩
  constructor
  · intro same
    by_contra something
    obtain ⟨pages, written⟩ := not_or.mp something
    have positive : 0 < pgSize.toNat :=
      Nat.pos_of_ne_zero (fun zero => pages (UInt64.toNat_inj.mp zero))
    have byte := congrFun same 0
    rw [foldl_firstByte (fun offset addr => memcpy addr offset (strBytes message)) positive
      (by omega) (fun offset addr above => memcpy_outside addr offset _ (.inl above)),
      cleared positive] at byte
    have inside : 0 < (strBytes message).length := List.length_pos_of_ne_nil written
    have held := memcpy_holds addr 0 (strBytes message) 0 inside
    have zero : (strBytes message)[0] = 0 := held.symm.trans byte
    exact strBytes_nulFree message (zero ▸ List.getElem_mem inside)
  · intro nothing
    rcases nothing with pages | written
    · rw [pages]
      rfl
    · rw [written]
      simp only [memcpy_nil]
      exact List.foldl_fixed _

end Loops

/-! ### All pages -/

section Steps

variable {pgSize : UInt64} {fuel : Nat}

/-- A read of all pages does the same whatever is signalled. -/
theorem readAllPages_counted (small : pgSize.toNat ≤ 1024) (enough : pgSize.toNat < fuel)
    (machine : Machine) :
    ∃ statesList lines, statesList (-1) = machine.statesList (-1) ∧
      ∀ busSignal, readAllPages (counted pgSize) fuel { machine with busSignal := busSignal } =
        some ({ machine with statesList := statesList, busSignal := busSignal }, lines) := by
  obtain ⟨statesList, shared, front⟩ := shareAll_front small enough machine.statesList
  obtain ⟨lines, strings⟩ : ∃ lines,
      readStrings (counted pgSize).length fuel machine.addr = some lines :=
    ⟨_, pageLoop_counted small enough _ []⟩
  have pages : shareAll (counted pgSize).pgSize fuel machine.statesList = some statesList :=
    shared
  refine ⟨statesList, .readingAllPages :: lines, front, fun busSignal => ?_⟩
  simp only [readAllPages, pages, strings]

/-- A write to all pages ends alike for both menus when there is nothing to copy. -/
theorem writeAllPages_counted (small : pgSize.toNat ≤ 1024) (enough : pgSize.toNat < fuel)
    (machine : Machine) (message : List UInt8) :
    ∃ first second,
      writeAllPages (counted pgSize).length (counted pgSize).length fuel machine message =
        some ({ machine with addr := first }, []) ∧
      writeAllPages (counted pgSize).length unset.length fuel machine message =
        some ({ machine with addr := second }, []) ∧
      (first = second ↔ pgSize = 0 ∨ strBytes message = []) := by
  obtain ⟨cleared, clear, zero⟩ := clearPages_firstByte small enough machine.addr
  obtain ⟨copied, copy, same⟩ := copyPages_firstByte small enough message cleared zero
  have nothing : copyPages unset.length message fuel cleared = some cleared :=
    pageLoop_unset enough _ cleared
  refine ⟨copied, cleared, ?_, ?_, same⟩
  · simp only [writeAllPages, clear, copy, Option.map_some]
  · simp only [writeAllPages, clear, nothing, Option.map_some]

/-! ### One command -/

def Machine.atPage (machine : Machine) (accessvar : UInt64) : Machine :=
  { machine with busSignal := { machine.busSignal with curVar := accessvar.toInt64.toInt32 } }

theorem Machine.NoneInFront.statesAt {machine : Machine} (front : machine.NoneInFront) :
    machine.statesAt (-1) = ⟨false, false, false⟩ := by
  have number : (-1 : UInt64).toInt64.toInt = -1 := by decide
  rw [Machine.statesAt, number]
  exact front

theorem accepts_all (mch : PageCount) :
    ((-1 : UInt64) < mch.pgSize || (-1 : UInt64) == -1) = true := by
  rw [beq_self_eq_true, Bool.or_true]

theorem readCommand_all (allPages : Machine → Option (Machine × List Line)) (mch : PageCount)
    {machine : Machine} (front : machine.NoneInFront) :
    readCommand allPages mch machine (-1) =
      (allPages (machine.atPage (-1))).map
        (fun (machine, lines) => (machine, .readingPage (-1) false false :: lines)) := by
  have states : (machine.atPage (-1)).statesAt (-1) = ⟨false, false, false⟩ :=
    Machine.NoneInFront.statesAt front
  rw [Machine.atPage] at states
  simp only [readCommand, accepts_all, states]
  rfl

theorem readCommand_single (mch : PageCount) (machine : Machine) {accessvar : UInt64}
    (single : accessvar ≠ -1) :
    ∃ after lines, after.statesList = machine.statesList ∧
      ∀ allPages, readCommand allPages mch machine accessvar = some (after, lines) := by
  have other : (accessvar == -1) = false := beq_false_of_ne single
  simp only [readCommand, other]
  split
  · split
    · exact ⟨_, _, by rfl, fun _ => rfl⟩
    · split
      · exact ⟨_, _, by rfl, fun _ => rfl⟩
      · exact ⟨_, _, by rfl, fun _ => rfl⟩
  · exact ⟨_, _, by rfl, fun _ => rfl⟩

theorem writeCommand_all (allPages : Machine → List UInt8 → Option (Machine × List Line))
    (mch : PageCount) {machine : Machine} (front : machine.NoneInFront) (message : List UInt8) :
    writeCommand allPages mch machine (-1) message = allPages machine message := by
  simp only [writeCommand, accepts_all, front.statesAt]
  rfl

theorem writeCommand_single (mch : PageCount) (machine : Machine) {accessvar : UInt64}
    (single : accessvar ≠ -1) (message : List UInt8) :
    ∃ after lines, after.statesList = machine.statesList ∧
      ∀ allPages, writeCommand allPages mch machine accessvar message = some (after, lines) := by
  have other : (accessvar == -1) = false := beq_false_of_ne single
  simp only [writeCommand, other]
  split
  · split
    · exact ⟨_, _, by rfl, fun _ => rfl⟩
    · split
      · exact ⟨_, _, by rfl, fun _ => rfl⟩
      · exact ⟨_, _, by rfl, fun _ => rfl⟩
  · exact ⟨_, _, by rfl, fun _ => rfl⟩

structure Taken (pgSize : UInt64) (fuel : Nat) (machine : Machine) (command : Command)
    (server client : Machine) : Prop where
  serverStep : ∃ lines, serverMenu (counted pgSize) fuel machine command = some (server, lines)
  clientStep : ∃ lines,
    clientMenu unset (counted pgSize) fuel machine command = some (client, lines)
  front : server.statesList (-1) = machine.statesList (-1)
  same : server = client ↔ Meets pgSize machine command

/-- Raising what is raised changes nothing. -/
theorem raiseBusRd_eq_iff (machine : Machine) :
    machine.raiseBusRd = machine ↔ machine.busSignal.busRd = 1 := by
  obtain ⟨_, _, signal⟩ := machine
  obtain ⟨busRd, _, _, _, _⟩ := signal
  constructor
  · intro same
    exact (congrArg (fun machine => machine.busSignal.busRd) same).symm
  · intro raised
    have one : busRd = 1 := raised
    rw [one]
    rfl

theorem read_taken (small : pgSize.toNat ≤ 1024) (enough : pgSize.toNat < fuel)
    {machine : Machine} (front : machine.NoneInFront) (accessvar : UInt64) :
    ∃ server client, Taken pgSize fuel machine (.read accessvar) server client := by
  by_cases all : accessvar = -1
  · obtain ⟨statesList, lines, kept, run⟩ :=
      readAllPages_counted small enough (machine.atPage (-1))
    obtain ⟨chosen, known⟩ : ∃ chosen, chosen = machine.atPage (-1) := ⟨_, rfl⟩
    have signals : chosen.busSignal.busRd = machine.busSignal.busRd := by rw [known]; rfl
    have states : chosen.statesList (-1) = machine.statesList (-1) := by rw [known]; rfl
    rw [← known] at kept run
    have serverRun := readCommand_all
      (fun machine => readAllPages (counted pgSize) fuel machine.raiseBusRd) (counted pgSize) front
    have clientRun := readCommand_all (readAllPages (counted pgSize) fuel) (counted pgSize) front
    rw [← known] at serverRun clientRun
    have raised := run chosen.raiseBusRd.busSignal
    have unraised := run chosen.busSignal
    have same := raiseBusRd_eq_iff { chosen with statesList := statesList }
    rw [signals] at same
    rw [all]
    exact ⟨_, _, ⟨_, serverRun.trans (congrArg (Option.map _) raised)⟩,
      ⟨_, clientRun.trans (congrArg (Option.map _) unraised)⟩, kept.trans states,
      same.trans ⟨fun raised _ => raised, fun meets => meets rfl⟩⟩
  · obtain ⟨after, lines, kept, run⟩ := readCommand_single (counted pgSize) machine all
    have meets : Meets pgSize machine (.read accessvar) := fun same => absurd same all
    exact ⟨after, after,
      ⟨lines, run (fun machine => readAllPages (counted pgSize) fuel machine.raiseBusRd)⟩,
      ⟨lines, run (readAllPages (counted pgSize) fuel)⟩, congrFun kept (-1),
      iff_of_true rfl meets⟩

theorem write_taken (small : pgSize.toNat ≤ 1024) (enough : pgSize.toNat < fuel)
    {machine : Machine} (front : machine.NoneInFront) (accessvar : UInt64)
    (message : List UInt8) :
    ∃ server client, Taken pgSize fuel machine (.write accessvar message) server client := by
  by_cases all : accessvar = -1
  · obtain ⟨first, second, serverRun, clientRun, same⟩ :=
      writeAllPages_counted small enough machine message
    have regions : ({ machine with addr := first } : Machine) = { machine with addr := second } ↔
        first = second :=
      ⟨congrArg Machine.addr, congrArg (fun addr => { machine with addr := addr })⟩
    rw [all]
    exact ⟨_, _, ⟨_, (writeCommand_all _ (counted pgSize) front message).trans serverRun⟩,
      ⟨_, (writeCommand_all _ (counted pgSize) front message).trans clientRun⟩, rfl,
      (regions.trans same).trans ⟨fun nothing _ => nothing, fun meets => meets rfl⟩⟩
  · obtain ⟨after, lines, kept, run⟩ := writeCommand_single (counted pgSize) machine all message
    have meets : Meets pgSize machine (.write accessvar message) := fun same => absurd same all
    exact ⟨after, after,
      ⟨lines, run (writeAllPages (counted pgSize).length (counted pgSize).length fuel)⟩,
      ⟨lines, run (writeAllPages (counted pgSize).length unset.length fuel)⟩,
      congrFun kept (-1), iff_of_true rfl meets⟩

theorem view_taken (small : pgSize.toNat ≤ 1024) (enough : pgSize.toNat < fuel)
    (machine : Machine) : ∃ server client, Taken pgSize fuel machine .view server client := by
  have listed := @countLoop_rounds pgSize fuel small enough (List Line)
    (fun start lines => lines ++ [.page start.toInt (machine.statesList start.toInt)]) []
  have shown := congrArg (Option.map (fun lines => (machine, lines))) listed
  exact ⟨machine, machine, ⟨_, shown⟩, ⟨_, shown⟩, rfl, iff_of_true rfl trivial⟩

theorem command_taken (small : pgSize.toNat ≤ 1024) (enough : pgSize.toNat < fuel)
    {machine : Machine} (front : machine.NoneInFront) (command : Command) :
    ∃ server client, Taken pgSize fuel machine command server client := by
  cases command with
  | read accessvar => exact read_taken small enough front accessvar
  | write accessvar message => exact write_taken small enough front accessvar message
  | view => exact view_taken small enough machine

theorem menuSteps_alike_iff (small : pgSize.toNat ≤ 1024) (enough : pgSize.toNat < fuel)
    {machine : Machine} (front : machine.NoneInFront) (command : Command) :
    StepsAlike (serverMenu (counted pgSize) fuel) (clientMenu unset (counted pgSize) fuel)
      machine command ↔ Meets pgSize machine command := by
  obtain ⟨server, client, taken⟩ := command_taken small enough front command
  obtain ⟨_, serverStep⟩ := taken.serverStep
  obtain ⟨_, clientStep⟩ := taken.clientStep
  rw [stepsAlike_iff serverStep clientStep]
  exact taken.same

theorem serverMenu_front (small : pgSize.toNat ≤ 1024) (enough : pgSize.toNat < fuel)
    {before after : Machine} {command : Command} {shown : List Line}
    (front : before.NoneInFront)
    (accepted : serverMenu (counted pgSize) fuel before command = some (after, shown)) :
    after.NoneInFront := by
  obtain ⟨server, client, taken⟩ := command_taken small enough front command
  obtain ⟨_, serverStep⟩ := taken.serverStep
  rw [accepted] at serverStep
  cases serverStep
  exact taken.front.trans front

/-- The menus agree after every command exactly when all commands meet the condition. -/
theorem menus_sideBySide_iff (small : pgSize.toNat ≤ 1024) (enough : pgSize.toNat < fuel)
    {start : Machine} (front : start.NoneInFront) (commands : List Command) :
    SideBySide (serverMenu (counted pgSize) fuel) (clientMenu unset (counted pgSize) fuel)
        start commands ↔
      ∃ shown final,
        Run (serverMenu (counted pgSize) fuel) (Meets pgSize) start commands shown final :=
  sideBySide_iff Machine.NoneInFront front
    (fun _ _ _ _ front accepted => serverMenu_front small enough front accepted)
    (fun _ command front => menuSteps_alike_iff small enough front command)

end Steps

def freshMachine : Machine where
  statesList index := ⟨false, false, decide (0 ≤ index)⟩
  addr := fun _ => 0
  busSignal := ⟨0, 0, 0, 0, 0⟩

theorem freshMachine_front : freshMachine.NoneInFront := rfl

theorem menus_sideBySide_iff_pages :
    SideBySide (serverMenu (counted 2) 3) (clientMenu unset (counted 2) 3) freshMachine
        [.read 0, .write 1 [97], .view] ↔
      ∃ shown final,
        Run (serverMenu (counted 2) 3) (Meets 2) freshMachine [.read 0, .write 1 [97], .view]
          shown final :=
  menus_sideBySide_iff (by decide) (by decide) freshMachine_front _

/-- A first command on which the menus differ. -/
theorem not_sideBySide_first {command : Command} (differs : ¬ Meets 1 freshMachine command) :
    ¬ SideBySide (serverMenu (counted 1) 2) (clientMenu unset (counted 1) 2) freshMachine
      [command] := by
  intro together
  have begun : Run (serverMenu (counted 1) 2) always freshMachine [] [] freshMachine := .stop
  have alike := @SideBySide.last _ _ _ _ _ _ _ _ _ [] _ _ together begun
  exact differs ((menuSteps_alike_iff (by decide) (by decide) freshMachine_front command).mp alike)

/-- Only machine 1 raises `BusRd` when all pages are read, and only its message arrives when
all are written. -/
theorem menus_sideBySide_fails :
    ¬ SideBySide (serverMenu (counted 1) 2) (clientMenu unset (counted 1) 2) freshMachine
        [.read (-1)] ∧
      ¬ SideBySide (serverMenu (counted 1) 2) (clientMenu unset (counted 1) 2) freshMachine
        [.write (-1) [97]] := by
  constructor
  · apply not_sideBySide_first
    intro meets
    exact absurd (meets rfl) (by decide)
  · apply not_sideBySide_first
    intro meets
    exact absurd (meets rfl) (by decide)

end LKP.Proj3
