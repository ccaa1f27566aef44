import LKP.Proj3.MenuRuns
import LKP.Proj3.PagedMenu

/-
The two menus of part 4 on regions whose pages `fault_handler_thread` brings.

Before the thread answers a fault it calls `update_bus`.  If `BusRd` is raised, that of machine
1 sends a struct, and that of machine 2 waits for one.  The other machine is there and sends
none, so machine 2 never comes back from the first page that it reads, unless a command for all
pages has brought them before.
-/

set_option autoImplicit false

namespace LKP.Proj3

open CBuffer CIntegers CountedLoop DemandPaging TransitionRun LockStep

/-! ### The menus on pages -/

/-- The offsets that a command accesses, in order, and `BusRd` while it does. -/
structure Touching where
  busRd : Int32
  offsets : List Int

def block (offset : Int) (size : Nat) : List Int :=
  (List.range size).map (fun index : Nat => offset + index)

def blocks (length : UInt64) (size fuel : Nat) : Option (List Int) :=
  pageLoop length (fun l offsets => offsets ++ block l.toInt size) fuel []

/-- The command `r`; `busRd` is what is raised when all pages are read. -/
def readTouching (busRd : Int32) (mch : PageCount) (fuel : Nat) (machine : Machine)
    (accessvar : UInt64) : Option Touching :=
  if accessvar < mch.pgSize || accessvar == -1 then
    let states := machine.statesAt accessvar
    let offset := (intAdd 0 (accessvar * pageSize)).toInt
    if states.S || states.M then some ⟨machine.busSignal.busRd, block offset 1⟩
    else if states.I then some ⟨1, block offset 1⟩
    else if accessvar == -1 then (blocks mch.length 1 fuel).map (fun offsets => ⟨busRd, offsets⟩)
    else some ⟨machine.busSignal.busRd, []⟩
  else some ⟨machine.busSignal.busRd, []⟩

def writeTouching (clearLength copyLength : UInt64) (mch : PageCount) (fuel : Nat)
    (machine : Machine) (accessvar : UInt64) (message : List UInt8) : Option Touching :=
  let busRd := machine.busSignal.busRd
  let text := (strBytes message).length
  if accessvar < mch.pgSize || accessvar == -1 then
    let states := machine.statesAt accessvar
    let offset := (intAdd 0 (accessvar * pageSize)).toInt
    if states.M then some ⟨busRd, block offset 8 ++ block offset text⟩
    else if states.S || states.I then some ⟨busRd, []⟩
    else if accessvar == -1 then
      match blocks clearLength 8 fuel, blocks copyLength text fuel with
      | some cleared, some copied => some ⟨busRd, cleared ++ copied⟩
      | _, _ => none
    else some ⟨busRd, []⟩
  else some ⟨busRd, []⟩

def Role.touching (pgSize : UInt64) (fuel : Nat) (machine : Machine) :
    Role → Command → Option Touching
  | .server, .read accessvar => readTouching 1 (counted pgSize) fuel machine accessvar
  | .client, .read accessvar =>
      readTouching machine.busSignal.busRd (counted pgSize) fuel machine accessvar
  | .server, .write accessvar message =>
      writeTouching (counted pgSize).length (counted pgSize).length (counted pgSize) fuel machine
        accessvar message
  | .client, .write accessvar message =>
      writeTouching (counted pgSize).length unset.length (counted pgSize) fuel machine accessvar
        message
  | _, .view => some ⟨machine.busSignal.busRd, []⟩

/-- `update_bus` comes back to `fault_handler_thread` while the other machine sends nothing. -/
def Role.updateBus (busRd : Int32) : Role → Bool
  | .server => true
  | .client => busRd != 1

/-- A machine and its region, from which `addr` is filled in when a command runs. -/
structure PagedMachine where
  machine : Machine
  region : Region Buffer

/-- A command makes its accesses, and then acts on the bytes that are there.  Faults are answered
as in part 3, once `update_bus` has come back. -/
def Role.pagedMenu (pgSize : UInt64) (base fuel : Nat) (role : Role) :
    StepFunction PagedMachine Command Line := fun s command =>
  match role.touching pgSize fuel s.machine command with
  | none => none
  | some touching =>
      let present := touching.offsets.all
        (fun offset => s.region.present ((pagesOf pgSize).pageOf offset))
      if role.updateBus touching.busRd || present then
        match s.region.touchEach (pagesOf pgSize) (faultHandlerThread base) touching.offsets with
        | none => none
        | some region =>
            (role.menu pgSize fuel { s.machine with addr := region.bytes } command).map
              (fun (after, lines) => (⟨after, { region with bytes := after.addr }⟩, lines))
      else none

def ReadsFirst (pgSize : UInt64) : List Command → Prop
  | [] => False
  | .read accessvar :: rest =>
      accessvar < pgSize ∨ accessvar ≠ -1 ∧ ReadsFirst pgSize rest
  | .write accessvar _ :: rest => accessvar ≠ -1 ∧ ReadsFirst pgSize rest
  | .view :: rest => ReadsFirst pgSize rest

def Command.OnAll : Command → Prop
  | .read accessvar => accessvar = -1
  | .write accessvar _ => accessvar = -1
  | .view => False

def Command.Reads (pgSize : UInt64) : Command → Prop
  | .read accessvar => accessvar < pgSize
  | _ => False

/-! ### What is accessed -/

section Touching

variable {pgSize : UInt64} {fuel : Nat} {machine : Machine} {board : Board}

theorem mem_block {offset start : Int} {size : Nat} :
    offset ∈ block start size ↔ start ≤ offset ∧ offset < start + size := by
  rw [block, List.mem_map]
  constructor
  · rintro ⟨index, among, rfl⟩
    have below := List.mem_range.mp among
    omega
  · intro within
    exact ⟨(offset - start).toNat, List.mem_range.mpr (by omega), by omega⟩

theorem blocks_pages {length : UInt64} {pages : Nat} (few : pages ≤ 2 ^ 19)
    (whole : length.toNat = pages * 4096) (enough : pages < fuel) (size : Nat) :
    ∃ offsets, blocks length size fuel = some offsets ∧
      ∀ offset, offset ∈ offsets ↔ ∃ page < pages,
        (page : Int) * 4096 ≤ offset ∧ offset < (page : Int) * 4096 + size := by
  refine ⟨_, pageLoop_pages few whole enough _ [], fun offset => ?_⟩
  rw [← List.flatMap_eq_foldl, List.mem_flatMap]
  constructor
  · rintro ⟨page, among, member⟩
    have below := List.mem_range.mp among
    rw [mem_block, intOffset_of_small (by omega)] at member
    exact ⟨page, below, member⟩
  · rintro ⟨page, below, member⟩
    refine ⟨page, List.mem_range.mpr below, ?_⟩
    rw [mem_block, intOffset_of_small (by omega)]
    exact member

def Command.offsets (pgSize : UInt64) : Command → List Int
  | .read accessvar => if accessvar < pgSize then block (accessvar.toNat * 4096) 1 else []
  | _ => []

theorem Command.offsets_of_not_reads {command : Command} (quiet : ¬ command.Reads pgSize) :
    command.offsets pgSize = [] := by
  cases command with
  | read accessvar => exact if_neg quiet
  | write accessvar message => rfl
  | view => rfl

theorem Command.offsets_page {command : Command} {offset : Int}
    (member : offset ∈ command.offsets pgSize) :
    ∃ page < pgSize.toNat, offset = (page : Int) * 4096 := by
  cases command with
  | read accessvar =>
      by_cases inside : accessvar < pgSize
      · rw [Command.offsets, if_pos inside, mem_block] at member
        exact ⟨accessvar.toNat, UInt64.lt_iff_toNat_lt.mp inside, by omega⟩
      · rw [Command.offsets, if_neg inside] at member
        exact absurd member List.not_mem_nil
  | write accessvar message => exact absurd member List.not_mem_nil
  | view => exact absurd member List.not_mem_nil

theorem singlePlace (small : pgSize.toNat ≤ 1024) {accessvar : UInt64}
    (inside : accessvar < pgSize) :
    (intAdd 0 (accessvar * pageSize)).toInt = (accessvar.toNat : Int) * 4096 := by
  have within := UInt64.lt_iff_toNat_lt.mp inside
  rw [intAdd_single, intOffset_of_small (by omega)]

theorem readTouching_single (shows : machine.Shows pgSize board) (small : pgSize.toNat ≤ 1024)
    (busRd : Int32) {accessvar : UInt64} (single : accessvar ≠ -1) :
    ∃ raised, readTouching busRd (counted pgSize) fuel machine accessvar =
        some ⟨raised, Command.offsets pgSize (.read accessvar)⟩ ∧
      (accessvar < pgSize → board.shared = false → raised = 1) := by
  by_cases inside : accessvar < pgSize
  · have offered : accessvar < (counted pgSize).pgSize := inside
    have states := shows.statesAt small inside
    obtain ⟨shared, letter⟩ := board
    rw [Command.offsets, if_pos inside, ← singlePlace small inside]
    cases shared with
    | true =>
        refine ⟨machine.busSignal.busRd, ?_, fun _ unshared => Bool.noConfusion unshared⟩
        simp only [readTouching, offered, states, Board.states, decide_true, Bool.true_or, if_true]
    | false =>
        refine ⟨1, ?_, fun _ _ => rfl⟩
        simp only [readTouching, offered, states, Board.states, decide_true, Bool.true_or, if_true]
        rfl
  · refine ⟨machine.busSignal.busRd, ?_, fun offered => absurd offered inside⟩
    simp only [readTouching, not_accepted inside single, Command.offsets, if_neg inside]
    rfl

theorem writeTouching_single (shows : machine.Shows pgSize board) (small : pgSize.toNat ≤ 1024)
    (clearLength copyLength : UInt64) {accessvar : UInt64} (single : accessvar ≠ -1)
    (message : List UInt8) :
    writeTouching clearLength copyLength (counted pgSize) fuel machine accessvar message =
      some ⟨machine.busSignal.busRd, []⟩ := by
  by_cases inside : accessvar < pgSize
  · have offered : accessvar < (counted pgSize).pgSize := inside
    have states := shows.statesAt small inside
    obtain ⟨shared, letter⟩ := board
    cases shared with
    | true =>
        simp only [writeTouching, offered, states, Board.states, decide_true, Bool.true_or, if_true]
        rfl
    | false =>
        simp only [writeTouching, offered, states, Board.states, decide_true, Bool.true_or, if_true]
        rfl
  · simp only [writeTouching, not_accepted inside single]
    rfl

theorem touching_single (role : Role) (shows : machine.Shows pgSize board)
    (small : pgSize.toNat ≤ 1024) {command : Command} (single : ¬ command.OnAll) :
    ∃ busRd, role.touching pgSize fuel machine command =
        some ⟨busRd, command.offsets pgSize⟩ ∧
      (command.Reads pgSize → board.shared = false → busRd = 1) := by
  cases command with
  | read accessvar =>
      cases role with
      | server => exact readTouching_single shows small 1 single
      | client => exact readTouching_single shows small machine.busSignal.busRd single
  | write accessvar message =>
      refine ⟨machine.busSignal.busRd, ?_, fun reads => reads.elim⟩
      cases role with
      | server => exact writeTouching_single shows small _ _ single message
      | client => exact writeTouching_single shows small _ _ single message
  | view =>
      refine ⟨machine.busSignal.busRd, ?_, fun reads => reads.elim⟩
      cases role with
      | server => rfl
      | client => rfl

def CoversPages (pgSize : UInt64) (offsets : List Int) : Prop :=
  (∀ offset ∈ offsets, ∃ page < pgSize.toNat,
    (page : Int) * 4096 ≤ offset ∧ offset < (page : Int) * 4096 + 4096) ∧
  ∀ page < pgSize.toNat, (page : Int) * 4096 ∈ offsets

theorem blocks_covers (small : pgSize.toNat ≤ 1024) (enough : pgSize.toNat < fuel) {size : Nat}
    (some : 0 < size) (within : size ≤ 4096) :
    ∃ offsets, blocks (counted pgSize).length size fuel = .some offsets ∧
      CoversPages pgSize offsets := by
  obtain ⟨offsets, looped, members⟩ :=
    blocks_pages (Nat.le_trans small (by decide)) (counted_length small) enough size
  refine ⟨offsets, looped, ?_, ?_⟩
  · intro offset member
    obtain ⟨page, below, lower, upper⟩ := (members offset).mp member
    exact ⟨page, below, lower, by omega⟩
  · intro page below
    exact (members _).mpr ⟨page, below, Int.le_refl _, by omega⟩

theorem readTouching_all (shows : machine.Shows pgSize board) (small : pgSize.toNat ≤ 1024)
    (enough : pgSize.toNat < fuel) (busRd : Int32) :
    ∃ offsets, readTouching busRd (counted pgSize) fuel machine (-1) = some ⟨busRd, offsets⟩ ∧
      CoversPages pgSize offsets := by
  obtain ⟨offsets, looped, covers⟩ := @blocks_covers _ _ small enough 1 (by decide) (by decide)
  refine ⟨offsets, ?_, covers⟩
  simp only [readTouching, accepts_all, Machine.NoneInFront.statesAt shows.front, looped]
  rfl

theorem writeTouching_all (shows : machine.Shows pgSize board) (small : pgSize.toNat ≤ 1024)
    (enough : pgSize.toNat < fuel) {message : List UInt8} (short : message.length < 4096)
    {copyLength : UInt64} (copies : copyLength = (counted pgSize).length ∨
      copyLength = unset.length) :
    ∃ offsets, writeTouching (counted pgSize).length copyLength (counted pgSize) fuel machine (-1)
        message = some ⟨machine.busSignal.busRd, offsets⟩ ∧ CoversPages pgSize offsets := by
  have length := strBytes_length_le message
  obtain ⟨cleared, clear, inside, starts⟩ :=
    @blocks_covers _ _ small enough 8 (by decide) (by decide)
  obtain ⟨copied, copy, within⟩ : ∃ copied,
      blocks copyLength (strBytes message).length fuel = some copied ∧
      ∀ offset ∈ copied, ∃ page < pgSize.toNat,
        (page : Int) * 4096 ≤ offset ∧ offset < (page : Int) * 4096 + 4096 := by
    rcases copies with all | nothing
    · obtain ⟨copied, copy, members⟩ := blocks_pages (Nat.le_trans small (by decide))
        (counted_length small) enough (strBytes message).length
      refine ⟨copied, by rw [all]; exact copy, fun offset member => ?_⟩
      obtain ⟨page, below, lower, upper⟩ := (members offset).mp member
      exact ⟨page, below, lower, by omega⟩
    · refine ⟨[], ?_, fun offset member => absurd member List.not_mem_nil⟩
      rw [nothing]
      exact pageLoop_unset enough _ []
  refine ⟨cleared ++ copied, ?_, ?_, ?_⟩
  · simp only [writeTouching, accepts_all, Machine.NoneInFront.statesAt shows.front, clear, copy]
    rfl
  · intro offset member
    rcases List.mem_append.mp member with first | second
    · exact inside offset first
    · exact within offset second
  · exact fun page below => List.mem_append_left _ (starts page below)

theorem touching_all (role : Role) (shows : machine.Shows pgSize board)
    (small : pgSize.toNat ≤ 1024) (enough : pgSize.toNat < fuel) {command : Command}
    (fitting : command.Fitting) (all : command.OnAll) :
    ∃ busRd offsets, role.touching pgSize fuel machine command = some ⟨busRd, offsets⟩ ∧
      CoversPages pgSize offsets ∧ (role = .client → busRd = machine.busSignal.busRd) := by
  cases command with
  | read accessvar =>
      obtain rfl : accessvar = -1 := all
      cases role with
      | server =>
          obtain ⟨offsets, touched, covers⟩ := readTouching_all shows small enough 1
          exact ⟨1, offsets, touched, covers, Role.noConfusion⟩
      | client =>
          obtain ⟨offsets, touched, covers⟩ :=
            readTouching_all shows small enough machine.busSignal.busRd
          exact ⟨_, offsets, touched, covers, fun _ => rfl⟩
  | write accessvar message =>
      obtain rfl : accessvar = -1 := all
      cases role with
      | server =>
          obtain ⟨offsets, touched, covers⟩ :=
            writeTouching_all shows small enough fitting (.inl rfl)
          exact ⟨_, offsets, touched, covers, fun _ => rfl⟩
      | client =>
          obtain ⟨offsets, touched, covers⟩ :=
            writeTouching_all shows small enough fitting (.inr rfl)
          exact ⟨_, offsets, touched, covers, fun _ => rfl⟩
  | view => exact absurd all id

end Touching

/-! ### The same command on other bytes -/

section Elsewhere

variable {pgSize : UInt64} {fuel : Nat} {machine : Machine} {board : Board} {addr : Buffer}

/-- What a command for a single page does is the same on all bytes that are so where it
accesses them. -/
theorem readCommand_elsewhere (allPages : Machine → Option (Machine × List Line))
    (mch : PageCount) {accessvar : UInt64} (single : accessvar ≠ -1)
    (same : accessvar < mch.pgSize → addr (intAdd 0 (accessvar * pageSize)).toInt =
      machine.addr (intAdd 0 (accessvar * pageSize)).toInt) :
    readCommand allPages mch { machine with addr := addr } accessvar =
      (readCommand allPages mch machine accessvar).map
        (fun (after, lines) => ({ after with addr := addr }, lines)) := by
  have other : (accessvar == -1) = false := beq_false_of_ne single
  by_cases offered : accessvar < mch.pgSize
  · simp only [readCommand, other, offered, same offered, Machine.statesAt]
    split
    · split
      · rfl
      · split
        · rfl
        · rfl
    · rfl
  · simp only [readCommand, other, offered]
    rfl

theorem writeCommand_elsewhere
    (allPages : Machine → List UInt8 → Option (Machine × List Line)) (mch : PageCount)
    {accessvar : UInt64} (single : accessvar ≠ -1) (message : List UInt8)
    (unmodified : accessvar < mch.pgSize → (machine.statesAt accessvar).M = false) :
    writeCommand allPages mch { machine with addr := addr } accessvar message =
      (writeCommand allPages mch machine accessvar message).map
        (fun (after, lines) => ({ after with addr := addr }, lines)) := by
  have other : (accessvar == -1) = false := beq_false_of_ne single
  by_cases offered : accessvar < mch.pgSize
  · have states := unmodified offered
    rw [Machine.statesAt] at states
    simp only [writeCommand, other, offered, Machine.statesAt, states]
    split
    · split
      · rename_i modified
        cases modified
      · split
        · rfl
        · rfl
    · rfl
  · simp only [writeCommand, other, offered]
    rfl

theorem menu_elsewhere (role : Role) (shows : machine.Shows pgSize board)
    (small : pgSize.toNat ≤ 1024) {command : Command} (single : ¬ command.OnAll)
    (same : ∀ offset ∈ command.offsets pgSize, addr offset = machine.addr offset) :
    role.menu pgSize fuel { machine with addr := addr } command =
      (role.menu pgSize fuel machine command).map
        (fun (after, lines) => ({ after with addr := addr }, lines)) := by
  cases command with
  | read accessvar =>
      have byte : accessvar < pgSize → addr (intAdd 0 (accessvar * pageSize)).toInt =
          machine.addr (intAdd 0 (accessvar * pageSize)).toInt := by
        intro inside
        apply same
        rw [Command.offsets, if_pos inside, mem_block, singlePlace small inside]
        omega
      cases role with
      | server =>
          exact readCommand_elsewhere
            (fun machine => readAllPages (counted pgSize) fuel machine.raiseBusRd)
            (counted pgSize) single byte
      | client => exact readCommand_elsewhere _ (counted pgSize) single byte
  | write accessvar message =>
      have unmodified : accessvar < pgSize → (machine.statesAt accessvar).M = false := by
        intro inside
        rw [shows.statesAt small inside]
        rfl
      cases role with
      | server => exact writeCommand_elsewhere _ (counted pgSize) single message unmodified
      | client => exact writeCommand_elsewhere _ (counted pgSize) single message unmodified
  | view =>
      have listed : viewCommand (counted pgSize) fuel { machine with addr := addr } =
          (viewCommand (counted pgSize) fuel machine).map
            (fun (after, lines) => ({ after with addr := addr }, lines)) := by
        rw [viewCommand, viewCommand, Option.map_map]
        rfl
      cases role with
      | server => exact listed
      | client => exact listed

/-- Only a read of a page raises `BusRd`, of the commands for a single page. -/
theorem menu_busRd (role : Role) {command : Command} (single : ¬ command.OnAll)
    (quiet : ¬ command.Reads pgSize) {after : Machine} {lines : List Line}
    (taken : role.menu pgSize fuel machine command = some (after, lines)) :
    after.busSignal.busRd = machine.busSignal.busRd := by
  cases command with
  | read accessvar =>
      have refused : ∀ allPages, readCommand allPages (counted pgSize) machine accessvar =
          some (machine.atPage accessvar, [.cantRead]) := by
        intro allPages
        simp only [readCommand, not_accepted quiet single]
        rfl
      cases role with
      | server =>
          cases (refused (fun machine =>
            readAllPages (counted pgSize) fuel machine.raiseBusRd)).symm.trans taken
          rfl
      | client =>
          cases (refused (readAllPages (counted pgSize) fuel)).symm.trans taken
          rfl
  | write accessvar message =>
      have kept : ∀ allPages : Machine → List UInt8 → Option (Machine × List Line),
          writeCommand allPages (counted pgSize) machine accessvar message =
            some (after, lines) → after.busSignal.busRd = machine.busSignal.busRd := by
        intro allPages written
        have other : (accessvar == -1) = false := beq_false_of_ne single
        simp only [writeCommand, other] at written
        split at written
        · split at written
          · cases written
            rfl
          · split at written
            · cases written
              rfl
            · cases written
              rfl
        · cases written
          rfl
      cases role with
      | server => exact kept _ taken
      | client => exact kept _ taken
  | view =>
      cases role with
      | server =>
          obtain ⟨_, _, pair⟩ := Option.map_eq_some_iff.mp taken
          cases pair
          rfl
      | client =>
          obtain ⟨_, _, pair⟩ := Option.map_eq_some_iff.mp taken
          cases pair
          rfl

end Elsewhere

/-! ### One command -/

def PagedMachine.Shows (pgSize : UInt64) (s : PagedMachine) (board : Board) : Prop :=
  ∃ addr, s.region.StandsFor (pagesOf pgSize) Zeroed (fun _ => 0) addr ∧
    Machine.Shows pgSize { s.machine with addr := addr } board

def PagedMachine.Resident (pgSize : UInt64) (s : PagedMachine) : Prop :=
  ∀ page < pgSize.toNat, s.region.present (page : Nat) = true

structure PagedMachine.Untouched (pgSize : UInt64) (s : PagedMachine) (board : Board) :
    Prop where
  unshared : board.shared = false
  unraised : s.machine.busSignal.busRd ≠ 1
  missing : ∀ page < pgSize.toNat, s.region.present (page : Nat) = false

/-- `update_bus` comes back, or is not called. -/
def PagedMachine.Awake (pgSize : UInt64) (role : Role) (s : PagedMachine) : Prop :=
  role = .server ∨ s.Resident pgSize

section Steps

variable {pgSize : UInt64} {base fuel : Nat} {s : PagedMachine} {board : Board} {role : Role}
variable {command : Command}

theorem pageOf_within {page : Nat} {offset : Int} (lower : (page : Int) * 4096 ≤ offset)
    (upper : offset < (page : Int) * 4096 + 4096) : (pagesOf pgSize).pageOf offset = page := by
  change offset / 4096 = page
  omega

theorem inside_within {page : Nat} (below : page < pgSize.toNat) {offset : Int}
    (lower : (page : Int) * 4096 ≤ offset) (upper : offset < (page : Int) * 4096 + 4096) :
    (pagesOf pgSize).Inside offset := by
  have last : (pagesOf pgSize).start (pagesOf pgSize).pages = (pgSize.toNat : Int) * 4096 := rfl
  refine ⟨by omega, ?_⟩
  rw [last]
  omega

/-- The accesses are made if `update_bus` comes back or all their pages have come. -/
theorem pagedMenu_of_touched {region : Region Buffer} {busRd : Int32} {offsets : List Int}
    (touching : role.touching pgSize fuel s.machine command = some ⟨busRd, offsets⟩)
    (awake : role.updateBus busRd = true ∨
      ∀ offset ∈ offsets, s.region.present ((pagesOf pgSize).pageOf offset) = true)
    (touched : s.region.touchEach (pagesOf pgSize) (faultHandlerThread base) offsets =
      some region) :
    role.pagedMenu pgSize base fuel s command =
      (role.menu pgSize fuel { s.machine with addr := region.bytes } command).map
        (fun (after, lines) => (⟨after, { region with bytes := after.addr }⟩, lines)) := by
  have goes : (role.updateBus busRd ||
      offsets.all (fun offset => s.region.present ((pagesOf pgSize).pageOf offset))) = true := by
    rw [Bool.or_eq_true, List.all_eq_true]
    exact awake
  simp only [Role.pagedMenu, touching, goes, if_true, touched]

/-- What is accessed does not depend on the bytes. -/
theorem touching_elsewhere (role : Role) (command : Command) (machine : Machine) (addr : Buffer) :
    role.touching pgSize fuel { machine with addr := addr } command =
      role.touching pgSize fuel machine command := by
  cases role with
  | server =>
      cases command with
      | read accessvar => rfl
      | write accessvar message => rfl
      | view => rfl
  | client =>
      cases command with
      | read accessvar => rfl
      | write accessvar message => rfl
      | view => rfl

theorem all_not_readsFirst (small : pgSize.toNat ≤ 1024) (all : command.OnAll)
    {rest : List Command} : ¬ ReadsFirst pgSize (command :: rest) := by
  cases command with
  | read accessvar =>
      obtain rfl : accessvar = -1 := all
      exact not_or.mpr ⟨all_not_inside small, fun later => later.1 rfl⟩
  | write accessvar message => exact fun later => later.1 all
  | view => exact all.elim

theorem reads_readsFirst (reads : command.Reads pgSize) {rest : List Command} :
    ReadsFirst pgSize (command :: rest) := by
  cases command with
  | read accessvar => exact .inl reads
  | write accessvar message => exact reads.elim
  | view => exact reads.elim

theorem next_shared_of_single (role : Role) (board : Board) (single : ¬ command.OnAll) :
    (board.next role command).shared = board.shared := by
  cases command with
  | read accessvar => rw [board.next_single role single]
  | write accessvar message =>
      have other : ¬ accessvar = -1 := single
      rw [Board.next, if_neg other]
  | view => rfl

theorem readsFirst_cons {rest : List Command} (single : ¬ command.OnAll)
    (quiet : ¬ command.Reads pgSize) :
    ReadsFirst pgSize (command :: rest) ↔ ReadsFirst pgSize rest := by
  cases command with
  | read accessvar => exact (or_iff_right quiet).trans (and_iff_right single)
  | write accessvar message => exact and_iff_right single
  | view => exact Iff.rfl

/-- Machine 2 raises `BusRd` when it reads an invalid page, and `update_bus` waits. -/
theorem pagedMenu_asleep (small : pgSize.toNat ≤ 1024) (shows : s.Shows pgSize board)
    (untouched : s.Untouched pgSize board) (reads : command.Reads pgSize)
    (single : ¬ command.OnAll) :
    Role.pagedMenu pgSize base fuel .client s command = none := by
  obtain ⟨addr, _, plain⟩ := shows
  obtain ⟨busRd, touching, raised⟩ :=
    @touching_single pgSize fuel _ _ .client plain small command single
  rw [touching_elsewhere, raised reads untouched.unshared] at touching
  cases command with
  | read accessvar =>
      have inside : accessvar < pgSize := reads
      have offset : Command.offsets pgSize (.read accessvar) = block (accessvar.toNat * 4096) 1 :=
        if_pos inside
      have missing := untouched.missing _ (UInt64.lt_iff_toNat_lt.mp inside)
      have absent : (block (accessvar.toNat * 4096) 1).all
          (fun offset => s.region.present ((pagesOf pgSize).pageOf offset)) = false := by
        rw [List.all_eq_false]
        refine ⟨accessvar.toNat * 4096, mem_block.mpr ⟨Int.le_refl _, by omega⟩, ?_⟩
        rw [pageOf_within (Int.le_refl _) (by omega), missing]
        exact Bool.false_ne_true
      have waits : Role.updateBus 1 .client = false := rfl
      rw [offset] at touching
      simp only [Role.pagedMenu, touching, waits, absent, Bool.or_self, Bool.false_eq_true,
        if_false]
  | write accessvar message => exact reads.elim
  | view => exact reads.elim

variable (aligned : 4096 ∣ base) (fits : base + pgSize.toNat * 4096 ≤ 2 ^ 64)
variable (small : pgSize.toNat ≤ 1024) (enough : pgSize.toNat < fuel)
include aligned fits small enough

/-- A command that is not for all pages. -/
theorem pagedMenu_single (shows : s.Shows pgSize board) (fitting : command.Fitting)
    (single : ¬ command.OnAll)
    (awake : ¬ command.Reads pgSize ∨ s.Awake pgSize role) :
    ∃ after, role.pagedMenu pgSize base fuel s command =
        some (after, board.lines pgSize command) ∧
      after.Shows pgSize (board.next role command) ∧
      (∀ page, s.region.present page = true → after.region.present page = true) ∧
      (¬ command.Reads pgSize → after.region.present = s.region.present ∧
        after.machine.busSignal.busRd = s.machine.busSignal.busRd) := by
  obtain ⟨addr, backs, plain⟩ := shows
  obtain ⟨busRd, touching, _⟩ := @touching_single pgSize fuel _ _ role plain small command single
  rw [touching_elsewhere] at touching
  have inside : ∀ offset ∈ command.offsets pgSize, (pagesOf pgSize).Inside offset := by
    intro offset member
    obtain ⟨page, below, rfl⟩ := Command.offsets_page member
    exact inside_within below (Int.le_refl _) (by omega)
  obtain ⟨region, touched, served⟩ :=
    backs.touchEach (faultHandlerThread_provides aligned fits) _ inside
  have goes : role.updateBus busRd = true ∨ ∀ offset ∈ command.offsets pgSize,
      s.region.present ((pagesOf pgSize).pageOf offset) = true := by
    rcases awake with quiet | server | resident
    · right
      rw [Command.offsets_of_not_reads quiet]
      exact fun offset member => absurd member List.not_mem_nil
    · left
      rw [server]
      rfl
    · right
      intro offset member
      obtain ⟨page, below, rfl⟩ := Command.offsets_page member
      rw [pageOf_within (Int.le_refl _) (by omega)]
      exact resident page below
  obtain ⟨next, taken, nextShows⟩ := menu_step role plain small enough fitting
  have onRegion := @menu_elsewhere pgSize fuel _ board region.bytes role plain small command
    single (fun offset member =>
      served.standsFor.same offset (inside offset member) (served.available offset member))
  have onPlain := @menu_elsewhere pgSize fuel _ board addr role plain small command single
    (fun _ _ => rfl)
  rw [taken] at onRegion onPlain
  have unchanged : next = { next with addr := addr } :=
    congrArg Prod.fst (Option.some.inj onPlain)
  refine ⟨_, (pagedMenu_of_touched touching goes touched).trans
    (congrArg (Option.map _) onRegion), ⟨addr, served.standsFor, unchanged ▸ nextShows⟩,
    served.kept, fun quiet => ?_⟩
  have raised := menu_busRd role single quiet taken
  rw [Command.offsets_of_not_reads quiet] at touched
  cases touched
  exact ⟨rfl, raised⟩

/-- A command for all pages brings them all. -/
theorem pagedMenu_all (shows : s.Shows pgSize board) (fitting : command.Fitting)
    (all : command.OnAll)
    (awake : s.machine.busSignal.busRd ≠ 1 ∨ s.Awake pgSize role) :
    ∃ after, role.pagedMenu pgSize base fuel s command =
        some (after, board.lines pgSize command) ∧
      after.Shows pgSize (board.next role command) ∧ after.Resident pgSize := by
  obtain ⟨addr, backs, plain⟩ := shows
  obtain ⟨busRd, offsets, touching, ⟨within, starts⟩, own⟩ :=
    touching_all role plain small enough fitting all
  rw [touching_elsewhere] at touching
  have inside : ∀ offset ∈ offsets, (pagesOf pgSize).Inside offset := by
    intro offset member
    obtain ⟨page, below, lower, upper⟩ := within offset member
    exact inside_within below lower upper
  obtain ⟨region, touched, served⟩ :=
    backs.touchEach (faultHandlerThread_provides aligned fits) _ inside
  have goes : role.updateBus busRd = true ∨ ∀ offset ∈ offsets,
      s.region.present ((pagesOf pgSize).pageOf offset) = true := by
    cases role with
    | server => exact .inl rfl
    | client =>
        rcases awake with unraised | server | resident
        · left
          rw [own rfl]
          exact bne_iff_ne.mpr unraised
        · cases server
        · right
          intro offset member
          obtain ⟨page, below, lower, upper⟩ := within offset member
          rw [pageOf_within lower upper]
          exact resident page below
  have present : ∀ page < pgSize.toNat, region.present (page : Nat) = true := by
    intro page below
    have available := served.available _ (starts page below)
    rwa [pageOf_within (Int.le_refl _) (by omega)] at available
  -- what the region holds is now what it stands for
  have begun : Machine.Shows pgSize { s.machine with addr := region.bytes } board := by
    refine ⟨plain.front, plain.states, fun page below => ?_⟩
    have start := inside_within below (Int.le_refl _) (by omega)
    have same := served.standsFor.same _ start (served.available _ (starts page below))
    exact same.trans (plain.letters page below)
  obtain ⟨next, taken, nextShows⟩ := menu_step role begun small enough fitting
  refine ⟨_, (pagedMenu_of_touched touching goes touched).trans
    (congrArg (Option.map _) taken), ⟨next.addr, ?_, nextShows⟩, present⟩
  refine ⟨fun _ _ _ => rfl, fun offset covered missing => ?_, served.standsFor.good⟩
  obtain ⟨lower, upper⟩ := covered.page
  obtain ⟨page, whole⟩ := Int.eq_ofNat_of_zero_le lower
  have below : page < pgSize.toNat := by
    have last : (pagesOf pgSize).pages = pgSize.toNat := rfl
    omega
  change region.present ((pagesOf pgSize).pageOf offset) = false at missing
  rw [whole, present page below] at missing
  cases missing

/-! ### Runs -/

/-- As long as `update_bus` comes back or is not called, everything is taken. -/
theorem pagedMenu_awake (shows : s.Shows pgSize board) (awake : s.Awake pgSize role)
    (commands : List Command) (fitting : ∀ command ∈ commands, command.Fitting) :
    ∃ final, Run (role.pagedMenu pgSize base fuel) always s commands
      (board.printed role pgSize commands) final := by
  induction commands generalizing s board with
  | nil => exact ⟨s, .stop⟩
  | cons command rest ih =>
      have fits' := fitting command List.mem_cons_self
      obtain ⟨middle, taken, begins, goesOn⟩ : ∃ middle,
          role.pagedMenu pgSize base fuel s command =
            some (middle, board.lines pgSize command) ∧
          middle.Shows pgSize (board.next role command) ∧ middle.Awake pgSize role := by
        by_cases all : command.OnAll
        · obtain ⟨middle, taken, begins, resident⟩ :=
            pagedMenu_all aligned fits small enough shows fits' all (.inr awake)
          exact ⟨middle, taken, begins, .inr resident⟩
        · obtain ⟨middle, taken, begins, kept, _⟩ :=
            pagedMenu_single aligned fits small enough shows fits' all (.inr awake)
          refine ⟨middle, taken, begins, awake.imp_right ?_⟩
          exact fun resident page below => kept page (resident page below)
      obtain ⟨final, run⟩ := ih begins goesOn
        (fun later member => fitting later (List.mem_cons_of_mem command member))
      have first : Run (role.pagedMenu pgSize base fuel) always s [command]
          (board.lines pgSize command) middle := Run.one trivial taken
      exact ⟨final, first.append run⟩

/-- Machine 2 takes everything just when no page is read first. -/
theorem pagedMenu_untouched (shows : s.Shows pgSize board) (untouched : s.Untouched pgSize board)
    (commands : List Command) (fitting : ∀ command ∈ commands, command.Fitting) :
    (ReadsFirst pgSize commands → ∀ lines final,
      ¬ Run (Role.pagedMenu pgSize base fuel .client) always s commands lines final) ∧
    (¬ ReadsFirst pgSize commands →
      ∃ final, Run (Role.pagedMenu pgSize base fuel .client) always s commands
        (board.printed .client pgSize commands) final) := by
  induction commands generalizing s board with
  | nil => exact ⟨fun none => none.elim, fun _ => ⟨s, .stop⟩⟩
  | cons command rest ih =>
      have fits' := fitting command List.mem_cons_self
      have later : ∀ other ∈ rest, other.Fitting :=
        fun other member => fitting other (List.mem_cons_of_mem command member)
      by_cases all : command.OnAll
      · obtain ⟨middle, taken, begins, resident⟩ := pagedMenu_all aligned fits small enough shows
          fits' all (.inl untouched.unraised)
        obtain ⟨final, run⟩ := pagedMenu_awake aligned fits small enough begins
          (.inr resident : middle.Awake pgSize .client) rest later
        have first : Run (Role.pagedMenu pgSize base fuel .client) always s [command]
            (board.lines pgSize command) middle := Run.one trivial taken
        refine ⟨fun readsFirst => ?_, fun _ => ⟨final, first.append run⟩⟩
        exact absurd readsFirst (all_not_readsFirst small all)
      · by_cases reads : command.Reads pgSize
        · have asleep := @pagedMenu_asleep pgSize base fuel _ _ _ small shows untouched reads all
          refine ⟨fun _ lines final run => ?_, fun unread => absurd ?_ unread⟩
          · obtain ⟨_, _, _, _, taken, _⟩ := run.uncons
            rw [asleep] at taken
            cases taken
          · exact reads_readsFirst reads
        · obtain ⟨middle, taken, begins, _, kept⟩ :=
            pagedMenu_single aligned fits small enough shows fits' all
              (.inl reads : _ ∨ s.Awake pgSize .client)
          obtain ⟨present, raised⟩ := kept reads
          have stays : middle.Untouched pgSize (board.next .client command) := by
            refine ⟨?_, ?_, ?_⟩
            · exact (next_shared_of_single .client board all).trans untouched.unshared
            · rw [raised]
              exact untouched.unraised
            · rw [present]
              exact untouched.missing
          obtain ⟨never, runs⟩ := ih begins stays later
          rw [readsFirst_cons all reads]
          refine ⟨fun readsFirst lines final run => ?_, fun unread => ?_⟩
          · obtain ⟨next, _, remaining, _, again, continued, _⟩ := run.uncons
            rw [taken] at again
            cases again
            exact never readsFirst remaining final continued
          · obtain ⟨final, run⟩ := runs unread
            have first : Run (Role.pagedMenu pgSize base fuel .client) always s [command]
                (board.lines pgSize command) middle := Run.one trivial taken
            exact ⟨final, first.append run⟩

/-- What start-up leaves: all pages are invalid and missing, and nothing is signalled. -/
structure PagedMachine.Fresh (pgSize : UInt64) (s : PagedMachine) : Prop where
  front : s.machine.NoneInFront
  invalid : ∀ page < pgSize.toNat, s.machine.statesList (page : Nat) = ⟨false, false, true⟩
  unraised : s.machine.busSignal.busRd = 0
  missing : ∀ page, s.region.present page = false
  zeroed : Zeroed s.region.control

omit aligned fits small enough in
theorem PagedMachine.Fresh.shows (fresh : s.Fresh pgSize) : s.Shows pgSize ⟨false, 0⟩ := by
  refine ⟨fun _ => 0, ⟨?_, fun _ _ _ => rfl, fresh.zeroed⟩, fresh.front, fresh.invalid,
    fun _ _ => rfl⟩
  intro offset _ present
  rw [fresh.missing] at present
  cases present

omit aligned fits small enough in
theorem PagedMachine.Fresh.untouched (fresh : s.Fresh pgSize) :
    s.Untouched pgSize ⟨false, 0⟩ where
  unshared := rfl
  unraised := by
    rw [fresh.unraised]
    decide
  missing page _ := fresh.missing page

/-- Machine 1 takes all commands, and machine 2 just those among which no page is read first.
What is printed is what the board says. -/
theorem faultedMenu_prints_iff (role : Role) (fresh : s.Fresh pgSize) (commands : List Command)
    (fitting : ∀ command ∈ commands, command.Fitting) (lines : List Line) :
    (∃ final, Run (role.pagedMenu pgSize base fuel) always s commands lines final) ↔
      (role = .client → ¬ ReadsFirst pgSize commands) ∧
        lines = (Board.mk false 0).printed role pgSize commands := by
  cases role with
  | server =>
      obtain ⟨final, run⟩ := pagedMenu_awake aligned fits small enough fresh.shows
        (.inl rfl : s.Awake pgSize .server) commands fitting
      constructor
      · rintro ⟨_, other⟩
        exact ⟨Role.noConfusion, other.sameOutputs run⟩
      · rintro ⟨_, rfl⟩
        exact ⟨final, run⟩
  | client =>
      obtain ⟨never, runs⟩ := pagedMenu_untouched aligned fits small enough fresh.shows
        fresh.untouched commands fitting
      constructor
      · rintro ⟨final, other⟩
        have unread : ¬ ReadsFirst pgSize commands :=
          fun readsFirst => never readsFirst lines final other
        obtain ⟨_, run⟩ := runs unread
        exact ⟨fun _ => unread, other.sameOutputs run⟩
      · rintro ⟨unread, rfl⟩
        exact runs (unread rfl)

end Steps

def untouchedMachine : PagedMachine where
  machine := freshMachine
  region := ⟨fun _ => false, fun _ => 120, fun _ => 0⟩

theorem untouchedMachine_fresh (pgSize : UInt64) : untouchedMachine.Fresh pgSize where
  front := freshMachine_front
  invalid page _ := congrArg (MSIList.mk false false) (decide_eq_true (Int.natCast_nonneg page))
  unraised := rfl
  missing _ := rfl
  zeroed _ _ _ := rfl

def messageForAll : List Command :=
  [.write (-1) [97, 98], .read 1, .read (-1), .write 1 [99], .view]

private theorem messageForAll_fitting : ∀ command ∈ messageForAll, command.Fitting := by
  simp [messageForAll, Command.Fitting]

theorem faultedMenu_prints_iff_messageForAll :
    (∃ final, Run (Role.pagedMenu 2 65536 3 .client) always untouchedMachine messageForAll
        ((Board.mk false 0).printed .client 2 messageForAll) final) ↔
      (Role.client = .client → ¬ ReadsFirst 2 messageForAll) ∧
        (Board.mk false 0).printed .client 2 messageForAll =
          (Board.mk false 0).printed .client 2 messageForAll :=
  faultedMenu_prints_iff (by decide) (by decide) (by decide) (by decide) .client
    (untouchedMachine_fresh 2) messageForAll messageForAll_fitting _

/-! ### The two machines next to each other -/

/-- What the two machines print on commands that both of them take shows the same exactly when
nothing that only machine 1 stores is printed. -/
theorem faultedMenus_print_alike_iff {pgSize : UInt64} {fuel base otherBase : Nat}
    (aligned : 4096 ∣ base) (fits : base + pgSize.toNat * 4096 ≤ 2 ^ 64)
    (otherAligned : 4096 ∣ otherBase) (otherFits : otherBase + pgSize.toNat * 4096 ≤ 2 ^ 64)
    (small : pgSize.toNat ≤ 1024) (enough : pgSize.toNat < fuel) {one two : PagedMachine}
    (first : one.Fresh pgSize) (second : two.Fresh pgSize) {commands : List Command}
    (fitting : ∀ command ∈ commands, command.Fitting) {lines otherLines : List Line}
    {oneFinal twoFinal : PagedMachine}
    (run : Run (Role.pagedMenu pgSize base fuel .server) always one commands lines oneFinal)
    (otherRun : Run (Role.pagedMenu pgSize otherBase fuel .client) always two commands otherLines
      twoFinal) :
    lines = otherLines ↔ NothingHeard pgSize commands := by
  obtain ⟨_, printed⟩ := (faultedMenu_prints_iff aligned fits small enough .server first commands
    fitting lines).mp ⟨oneFinal, run⟩
  obtain ⟨_, otherPrinted⟩ := (faultedMenu_prints_iff otherAligned otherFits small enough .client
    second commands fitting otherLines).mp ⟨twoFinal, otherRun⟩
  rw [printed, otherPrinted, printed_alike_iff]
  have letters : ∀ before : List Command,
      ((Board.mk false 0).final .server before).letter = 0 ↔ lastToAll before = [] := by
    intro before
    rw [final_letter]
    exact headD_eq_zero_iff (lastToAll_nulFree before)
  simp only [letters]
  rfl

theorem faultedMenus_print_alike_iff_messageForAll :
    ∃ lines otherLines oneFinal twoFinal,
      Run (Role.pagedMenu 2 65536 3 .server) always untouchedMachine messageForAll lines
        oneFinal ∧
      Run (Role.pagedMenu 2 131072 3 .client) always untouchedMachine messageForAll otherLines
        twoFinal ∧
      (lines = otherLines ↔ NothingHeard 2 messageForAll) := by
  have fresh := untouchedMachine_fresh 2
  have few : (2 : UInt64).toNat < 3 := by decide
  have whole : (65536 : Nat) + (2 : UInt64).toNat * 4096 ≤ 2 ^ 64 := by decide
  have otherWhole : (131072 : Nat) + (2 : UInt64).toNat * 4096 ≤ 2 ^ 64 := by decide
  obtain ⟨oneFinal, run⟩ := pagedMenu_awake (by decide) whole (by decide) few fresh.shows
    (.inl rfl : untouchedMachine.Awake 2 .server) messageForAll messageForAll_fitting
  obtain ⟨twoFinal, otherRun⟩ := (pagedMenu_untouched (by decide) otherWhole (by decide) few
    fresh.shows fresh.untouched messageForAll messageForAll_fitting).2
      (@all_not_readsFirst 2 (.write (-1) [97, 98]) (by decide) rfl _)
  exact ⟨_, _, _, _, run, otherRun, faultedMenus_print_alike_iff (by decide) whole (by decide)
    otherWhole (by decide) few fresh fresh messageForAll_fitting run otherRun⟩

end LKP.Proj3
