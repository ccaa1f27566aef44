import LKP.Proj3.TwoMenus

/-
What the two menus of part 4 print in whole runs, on regions whose pages are all there.

A page becomes modified nowhere, so a message for one page is never stored, and a message
for all of them is stored by machine 1 only.  All that is printed follows from whether all
pages were read before and from one byte, with which every page begins.
-/

set_option autoImplicit false

namespace LKP.Proj3

open CBuffer CIntegers CountedLoop TransitionRun LockStep

/-! ### What the lines depend on -/

/-- Machine 1 has the menu of `server_socket`, and machine 2 that of `client_socket`. -/
inductive Role
  | server
  | client

def Role.menu (pgSize : UInt64) (fuel : Nat) : Role → StepFunction Machine Command Line
  | .server => serverMenu (counted pgSize) fuel
  | .client => clientMenu unset (counted pgSize) fuel

/-- The byte with which every page begins after a write to all of them. -/
def Role.letter (message : List UInt8) : Role → UInt8
  | .server => (strBytes message).headD 0
  | .client => 0

/-- A region of which only this is known: whether its pages are shared, and the byte with which
each begins. -/
structure Board where
  shared : Bool
  letter : UInt8

def Board.states (board : Board) : MSIList := ⟨false, board.shared, !board.shared⟩

def Board.reading (board : Board) (accessvar : UInt64) : List Line :=
  if board.shared then
    [.readingPage accessvar true false, .checkLocalCopy, .readingTheString board.letter]
  else
    [.readingPage accessvar false false, .invalidState, .generateBusRd 1,
      .readingTheString board.letter]

def Board.lines (pgSize : UInt64) (board : Board) : Command → List Line
  | .read accessvar =>
      if accessvar < pgSize then board.reading accessvar
      else if accessvar = -1 then
        .readingPage (-1) false false :: .readingAllPages ::
          List.replicate pgSize.toNat (.readingTheString board.letter)
      else [.cantRead]
  | .write accessvar _ => if accessvar < pgSize ∨ accessvar = -1 then [] else [.cantWrite]
  | .view => (List.range pgSize.toNat).map (fun start : Nat => .page start board.states)

def Board.next (role : Role) (board : Board) : Command → Board
  | .read accessvar => { board with shared := board.shared || accessvar == -1 }
  | .write accessvar message =>
      if accessvar = -1 then { board with letter := role.letter message } else board
  | .view => board

def Board.printed (role : Role) (pgSize : UInt64) (board : Board) : List Command → List Line
  | [] => []
  | command :: rest =>
      board.lines pgSize command ++ (board.next role command).printed role pgSize rest

def Board.final (role : Role) (board : Board) (commands : List Command) : Board :=
  commands.foldl (Board.next role) board

structure Machine.Shows (pgSize : UInt64) (machine : Machine) (board : Board) : Prop where
  front : machine.NoneInFront
  states : ∀ page < pgSize.toNat, machine.statesList (page : Nat) = board.states
  letters : ∀ page < pgSize.toNat, machine.addr ((page : Nat) * 4096) = board.letter

def Command.Fitting : Command → Prop
  | .write _ message => message.length < 4096
  | _ => True

/-! ### The loops over all pages -/

section Loops

variable {pgSize : UInt64} {fuel : Nat}

/-- Only the round of a page reaches the byte with which it begins. -/
theorem foldl_pageByte (act : Int → Buffer → Buffer) {page pages : Nat} (few : pages ≤ 2 ^ 19)
    (value : UInt8) (addr : Buffer)
    (own : ∀ before : Buffer, before ((page : Int) * 4096) = addr ((page : Int) * 4096) →
      act ((page : Int) * 4096) before ((page : Int) * 4096) = value)
    (other : ∀ target : Nat, target ≠ page → ∀ before : Buffer,
      act ((target : Int) * 4096) before ((page : Int) * 4096) =
        before ((page : Int) * 4096)) :
    (List.range pages).foldl (fun addr target => act (intOffset target).toInt addr) addr
        ((page : Int) * 4096) =
      if page < pages then value else addr ((page : Int) * 4096) := by
  induction pages with
  | zero => exact (if_neg (Nat.not_lt_zero page)).symm
  | succ pages ih =>
      have before := ih (by omega)
      rw [List.range_succ, List.foldl_concat, intOffset_of_small (by omega)]
      by_cases last : pages = page
      · rw [if_neg (by omega)] at before
        rw [last] at before ⊢
        rw [if_pos (Nat.lt_succ_self page)]
        exact own _ before
      · rw [other pages last, before]
        by_cases earlier : page < pages
        · rw [if_pos earlier, if_pos (by omega)]
        · rw [if_neg earlier, if_neg (by omega)]

theorem clearPages_letters (small : pgSize.toNat ≤ 1024) (enough : pgSize.toNat < fuel)
    (addr : Buffer) :
    ∃ after, clearPages (counted pgSize).length fuel addr = some after ∧
      ∀ page < pgSize.toNat, after ((page : Nat) * 4096) = 0 := by
  refine ⟨_, pageLoop_counted small enough _ addr, fun page within => ?_⟩
  rw [foldl_pageByte (fun offset addr => memset addr offset 0 8) (by omega) 0 addr, if_pos within]
  · exact fun before _ => memset_inside before _ 0 8 (Int.le_refl _) (by omega)
  · intro target different before
    apply memset_outside
    omega

theorem memcpy_first (addr : Buffer) (offset : Int) (text : List UInt8) :
    memcpy addr offset text offset = text.headD (addr offset) := by
  cases text with
  | nil => rw [memcpy_nil, List.headD_nil]
  | cons byte rest =>
      have held := memcpy_holds addr offset (byte :: rest) 0 (Nat.zero_lt_succ _)
      have place : offset + ((0 : Nat) : Int) = offset := Int.add_zero offset
      rw [place] at held
      exact held

theorem copyPages_letters (small : pgSize.toNat ≤ 1024) (enough : pgSize.toNat < fuel)
    {message : List UInt8} (short : message.length < 4096) {addr : Buffer}
    (cleared : ∀ page < pgSize.toNat, addr ((page : Nat) * 4096) = 0) :
    ∃ after, copyPages (counted pgSize).length message fuel addr = some after ∧
      ∀ page < pgSize.toNat, after ((page : Nat) * 4096) = (strBytes message).headD 0 := by
  have length := strBytes_length_le message
  refine ⟨_, pageLoop_counted small enough _ addr, fun page within => ?_⟩
  rw [foldl_pageByte (fun offset addr => memcpy addr offset (strBytes message)) (by omega)
    ((strBytes message).headD 0) addr, if_pos within]
  · intro before same
    rw [memcpy_first, same, cleared page within]
  · intro target different before
    apply memcpy_outside
    omega

/-- The entries of all pages become shared, and no other entry changes. -/
theorem shareAll_states (small : pgSize.toNat ≤ 1024) (enough : pgSize.toNat < fuel)
    (statesList : Int → MSIList) :
    ∃ after, shareAll pgSize fuel statesList = some after ∧
      ∀ index, after index =
        if 0 ≤ index ∧ index < pgSize.toNat then ⟨false, true, false⟩ else statesList index := by
  refine ⟨_, countLoop_rounds small enough _ statesList, fun index => ?_⟩
  obtain ⟨pages, bound⟩ : ∃ pages, pages = pgSize.toNat := ⟨_, rfl⟩
  rw [← bound] at small ⊢
  clear bound
  induction pages with
  | zero => exact (if_neg (by omega)).symm
  | succ pages ih =>
      have value := @Int32.toInt_ofNat_of_lt pages (by omega)
      rw [List.range_succ, List.foldl_concat]
      by_cases last : index = pages
      · rw [last, value, Function.update_self, if_pos (by omega)]
      · rw [value, Function.update_of_ne last, ih (by omega)]
        by_cases earlier : 0 ≤ index ∧ index < pages
        · rw [if_pos earlier, if_pos (by omega)]
        · rw [if_neg earlier, if_neg (by omega)]

end Loops

/-! ### One command -/

section Steps

variable {pgSize : UInt64} {fuel : Nat} {machine : Machine} {board : Board}

theorem Machine.Shows.of_same (shows : machine.Shows pgSize board) (after : Machine)
    (states : after.statesList = machine.statesList) (addr : after.addr = machine.addr) :
    after.Shows pgSize board where
  front := by rw [Machine.NoneInFront, states]; exact shows.front
  states page within := by rw [states]; exact shows.states page within
  letters page within := by rw [addr]; exact shows.letters page within

theorem Machine.Shows.statesAt (shows : machine.Shows pgSize board)
    (small : pgSize.toNat ≤ 1024) {accessvar : UInt64} (inside : accessvar < pgSize) :
    machine.statesAt accessvar = board.states := by
  have within := UInt64.lt_iff_toNat_lt.mp inside
  rw [Machine.statesAt, signed_of_small (by omega)]
  exact shows.states _ within

theorem Machine.Shows.byteAt (shows : machine.Shows pgSize board)
    (small : pgSize.toNat ≤ 1024) {accessvar : UInt64} (inside : accessvar < pgSize) :
    machine.addr (intAdd 0 (accessvar * pageSize)).toInt = board.letter := by
  have within := UInt64.lt_iff_toNat_lt.mp inside
  have place : (intAdd 0 (accessvar * pageSize)).toInt = (accessvar.toNat : Int) * 4096 := by
    rw [singleOffset]
    simp only [Int.bmod]
    omega
  rw [place]
  exact shows.letters _ within

/-- One page is read. -/
theorem readCommand_page (shows : machine.Shows pgSize board) (small : pgSize.toNat ≤ 1024)
    {accessvar : UInt64} (inside : accessvar < pgSize)
    (allPages : Machine → Option (Machine × List Line)) :
    ∃ after, readCommand allPages (counted pgSize) machine accessvar =
        some (after, board.reading accessvar) ∧ after.Shows pgSize board := by
  have offered : accessvar < (counted pgSize).pgSize := inside
  have states := (shows.of_same (machine.atPage accessvar) rfl rfl).statesAt small inside
  have byte := shows.byteAt small inside
  rw [Machine.atPage] at states
  obtain ⟨shared, letter⟩ := board
  cases shared with
  | true =>
      refine ⟨machine.atPage accessvar, ?_, shows.of_same _ rfl rfl⟩
      simp only [readCommand, offered, states, byte, Board.states, Board.reading, decide_true,
        Bool.true_or, if_true]
      rfl
  | false =>
      refine ⟨(machine.atPage accessvar).raiseBusRd, ?_, shows.of_same _ rfl rfl⟩
      simp only [readCommand, offered, states, byte, Board.states, Board.reading, decide_true,
        Bool.true_or, if_true]
      rfl

theorem readAllPages_shows (shows : machine.Shows pgSize board) (small : pgSize.toNat ≤ 1024)
    (enough : pgSize.toNat < fuel) :
    ∃ after, readAllPages (counted pgSize) fuel machine =
        some (after, .readingAllPages ::
          List.replicate pgSize.toNat (.readingTheString board.letter)) ∧
      after.Shows pgSize { board with shared := true } := by
  obtain ⟨statesList, shared, entries⟩ := shareAll_states small enough machine.statesList
  have strings : readStrings (counted pgSize).length fuel machine.addr =
      some (List.replicate pgSize.toNat (.readingTheString board.letter)) := by
    rw [readStrings, pageLoop_counted small enough,
      foldl_noted (fun page => Line.readingTheString (machine.addr (intOffset page).toInt)),
      List.nil_append]
    congr 1
    rw [List.eq_replicate_iff, List.length_map, List.length_range]
    refine ⟨rfl, fun line member => ?_⟩
    obtain ⟨page, among, same⟩ := List.mem_map.mp member
    have within := List.mem_range.mp among
    rw [← same, intOffset_of_small (by omega), shows.letters page within]
  have pages : shareAll (counted pgSize).pgSize fuel machine.statesList = some statesList :=
    shared
  refine ⟨{ machine with statesList := statesList }, by simp only [readAllPages, pages, strings],
    ?_, ?_, shows.letters⟩
  · exact (entries (-1)).trans ((if_neg (by omega)).trans shows.front)
  · intro page within
    exact (entries page).trans (if_pos (by omega))

/-- All pages are written by machine 1. -/
theorem writeAllPages_server (shows : machine.Shows pgSize board) (small : pgSize.toNat ≤ 1024)
    (enough : pgSize.toNat < fuel) {message : List UInt8} (short : message.length < 4096) :
    ∃ after, writeAllPages (counted pgSize).length (counted pgSize).length fuel machine message =
        some (after, []) ∧
      after.Shows pgSize { board with letter := (strBytes message).headD 0 } := by
  obtain ⟨cleared, clear, zero⟩ := clearPages_letters small enough machine.addr
  obtain ⟨copied, copy, letters⟩ := copyPages_letters small enough short zero
  refine ⟨{ machine with addr := copied }, ?_, shows.front, shows.states, letters⟩
  simp only [writeAllPages, clear, copy, Option.map_some]

/-- On machine 2 the loop that copies the message makes no round. -/
theorem writeAllPages_client (shows : machine.Shows pgSize board) (small : pgSize.toNat ≤ 1024)
    (enough : pgSize.toNat < fuel) (message : List UInt8) :
    ∃ after, writeAllPages (counted pgSize).length unset.length fuel machine message =
        some (after, []) ∧ after.Shows pgSize { board with letter := 0 } := by
  obtain ⟨cleared, clear, zero⟩ := clearPages_letters small enough machine.addr
  have nothing : copyPages unset.length message fuel cleared = some cleared :=
    pageLoop_unset enough _ cleared
  refine ⟨{ machine with addr := cleared }, ?_, shows.front, shows.states, zero⟩
  simp only [writeAllPages, clear, nothing, Option.map_some]

/-- A page is not modified, so a message for it is not stored. -/
theorem writeCommand_page (shows : machine.Shows pgSize board) (small : pgSize.toNat ≤ 1024)
    {accessvar : UInt64} (inside : accessvar < pgSize) (message : List UInt8)
    (allPages : Machine → List UInt8 → Option (Machine × List Line)) :
    ∃ after, writeCommand allPages (counted pgSize) machine accessvar message =
        some (after, []) ∧ after.Shows pgSize board := by
  have offered : accessvar < (counted pgSize).pgSize := inside
  have states := shows.statesAt small inside
  refine ⟨{ machine with busSignal := { machine.busSignal with busRdX := 1 } }, ?_,
    shows.of_same _ rfl rfl⟩
  obtain ⟨shared, letter⟩ := board
  cases shared with
  | true =>
      simp only [writeCommand, offered, states, Board.states, decide_true, Bool.true_or, if_true]
      rfl
  | false =>
      simp only [writeCommand, offered, states, Board.states, decide_true, Bool.true_or, if_true]
      rfl

/-- A number that is neither that of a page nor -1. -/
theorem not_accepted {accessvar : UInt64} (outside : ¬ accessvar < pgSize)
    (single : accessvar ≠ -1) :
    (decide (accessvar < (counted pgSize).pgSize) || accessvar == -1) = false := by
  rw [Bool.or_eq_false_iff]
  exact ⟨decide_eq_false outside, beq_false_of_ne single⟩

/-- The number -1 is that of no page. -/
theorem all_not_inside (small : pgSize.toNat ≤ 1024) : ¬ (-1 : UInt64) < pgSize := by
  have last : (-1 : UInt64).toNat = 2 ^ 64 - 1 := by decide
  rw [UInt64.lt_iff_toNat_lt]
  omega

theorem Board.next_single (role : Role) (board : Board) {accessvar : UInt64}
    (single : accessvar ≠ -1) : board.next role (.read accessvar) = board := by
  rw [Board.next, beq_false_of_ne single, Bool.or_false]

/-- A read is taken by both menus, which differ in what comes before all pages are read. -/
theorem readCommand_shows (role : Role) (shows : machine.Shows pgSize board)
    (small : pgSize.toNat ≤ 1024) (accessvar : UInt64)
    (allPages : Machine → Option (Machine × List Line))
    (every : ∀ machine : Machine, machine.Shows pgSize board → ∃ after,
      allPages machine = some (after, .readingAllPages ::
          List.replicate pgSize.toNat (.readingTheString board.letter)) ∧
        after.Shows pgSize { board with shared := true }) :
    ∃ after, readCommand allPages (counted pgSize) machine accessvar =
        some (after, board.lines pgSize (.read accessvar)) ∧
      after.Shows pgSize (board.next role (.read accessvar)) := by
  by_cases inside : accessvar < pgSize
  · have single : accessvar ≠ -1 := fun all => all_not_inside small (all ▸ inside)
    rw [Board.lines, if_pos inside, Board.next_single role board single]
    exact readCommand_page shows small inside allPages
  · rw [Board.lines, if_neg inside]
    by_cases all : accessvar = -1
    · obtain ⟨after, run, final⟩ := every (machine.atPage (-1)) (shows.of_same _ rfl rfl)
      have shared : board.next role (.read (-1)) = { board with shared := true } := by
        rw [Board.next, beq_self_eq_true, Bool.or_true]
      rw [if_pos all, all, shared, readCommand_all allPages (counted pgSize) shows.front, run]
      exact ⟨after, rfl, final⟩
    · rw [if_neg all, Board.next_single role board all]
      refine ⟨machine.atPage accessvar, ?_, shows.of_same _ rfl rfl⟩
      simp only [readCommand, not_accepted inside all]
      rfl

theorem writeCommand_shows (role : Role) (shows : machine.Shows pgSize board)
    (small : pgSize.toNat ≤ 1024) (accessvar : UInt64) (message : List UInt8)
    (allPages : Machine → List UInt8 → Option (Machine × List Line))
    (every : ∃ after, allPages machine message = some (after, []) ∧
      after.Shows pgSize { board with letter := role.letter message }) :
    ∃ after, writeCommand allPages (counted pgSize) machine accessvar message =
        some (after, board.lines pgSize (.write accessvar message)) ∧
      after.Shows pgSize (board.next role (.write accessvar message)) := by
  by_cases inside : accessvar < pgSize
  · have single : accessvar ≠ -1 := fun all => all_not_inside small (all ▸ inside)
    rw [Board.lines, Board.next, if_pos (.inl inside), if_neg single]
    exact writeCommand_page shows small inside message allPages
  · rw [Board.lines, Board.next]
    by_cases all : accessvar = -1
    · rw [if_pos (.inr all), if_pos all, all,
        writeCommand_all allPages (counted pgSize) shows.front]
      exact every
    · rw [if_neg (not_or.mpr ⟨inside, all⟩), if_neg all]
      refine ⟨machine, ?_, shows⟩
      simp only [writeCommand, not_accepted inside all]
      rfl

theorem viewCommand_shows (shows : machine.Shows pgSize board) (small : pgSize.toNat ≤ 1024)
    (enough : pgSize.toNat < fuel) :
    viewCommand (counted pgSize) fuel machine =
      some (machine, board.lines pgSize .view) := by
  have listed := @countLoop_rounds pgSize fuel small enough (List Line)
    (fun start lines => lines ++ [.page start.toInt (machine.statesList start.toInt)]) []
  rw [foldl_noted (fun start => Line.page (Int32.ofNat start).toInt
    (machine.statesList (Int32.ofNat start).toInt)), List.nil_append] at listed
  have entries : (List.range pgSize.toNat).map (fun start => Line.page (Int32.ofNat start).toInt
      (machine.statesList (Int32.ofNat start).toInt)) = board.lines pgSize .view := by
    apply List.map_congr_left
    intro start member
    have within := List.mem_range.mp member
    rw [Int32.toInt_ofNat_of_lt (by omega), shows.states start within]
  rw [entries] at listed
  exact congrArg (Option.map (fun lines => (machine, lines))) listed

/-- A command prints what the board says, and leaves the region of the next board. -/
theorem menu_step (role : Role) (shows : machine.Shows pgSize board)
    (small : pgSize.toNat ≤ 1024) (enough : pgSize.toNat < fuel) {command : Command}
    (fitting : command.Fitting) :
    ∃ after, role.menu pgSize fuel machine command =
        some (after, board.lines pgSize command) ∧
      after.Shows pgSize (board.next role command) := by
  cases command with
  | read accessvar =>
      cases role with
      | server =>
          exact readCommand_shows .server shows small accessvar _ (fun machine shows =>
            readAllPages_shows (shows.of_same machine.raiseBusRd rfl rfl) small enough)
      | client =>
          exact readCommand_shows .client shows small accessvar _ (fun machine shows =>
            readAllPages_shows shows small enough)
  | write accessvar message =>
      cases role with
      | server =>
          exact writeCommand_shows .server shows small accessvar message _
            (writeAllPages_server shows small enough fitting)
      | client =>
          exact writeCommand_shows .client shows small accessvar message _
            (writeAllPages_client shows small enough message)
  | view =>
      cases role with
      | server => exact ⟨machine, viewCommand_shows shows small enough, shows⟩
      | client => exact ⟨machine, viewCommand_shows shows small enough, shows⟩

end Steps

/-! ### The two machines next to each other -/

section Alike

variable {pgSize : UInt64} {fuel : Nat}

/-- The message that was last written to all pages; empty if there was none. -/
def lastToAll (commands : List Command) : List UInt8 :=
  commands.foldl
    (fun last command =>
      match command with
      | .write accessvar message => if accessvar = -1 then strBytes message else last
      | _ => last) []

/-- The command prints what is at the beginning of a page. -/
def Command.PrintsText (pgSize : UInt64) : Command → Prop
  | .read accessvar => accessvar < pgSize ∨ accessvar = -1 ∧ 0 < pgSize.toNat
  | _ => False

/-- Every such command comes before all messages for all pages, or after an empty one. -/
def NothingHeard (pgSize : UInt64) (commands : List Command) : Prop :=
  ∀ before command after, commands = before ++ command :: after →
    command.PrintsText pgSize → lastToAll before = []

theorem headD_eq_zero_iff {text : List UInt8} (nulFree : (0 : UInt8) ∉ text) :
    text.headD 0 = 0 ↔ text = [] := by
  cases text with
  | nil => exact iff_of_true rfl rfl
  | cons byte rest =>
      constructor
      · intro zero
        have byteZero : byte = 0 := zero
        exact absurd (List.mem_cons.mpr (.inl byteZero.symm)) nulFree
      · exact fun empty => absurd empty (List.cons_ne_nil byte rest)

theorem lastToAll_nulFree (commands : List Command) : (0 : UInt8) ∉ lastToAll commands := by
  induction commands using List.reverseRecOn with
  | nil => exact List.not_mem_nil
  | append_singleton commands command ih =>
      rw [lastToAll, List.foldl_concat, ← lastToAll]
      cases command with
      | read accessvar => exact ih
      | write accessvar message =>
          by_cases all : accessvar = -1
          · simp only [if_pos all]
            exact strBytes_nulFree message
          · simp only [if_neg all]
            exact ih
      | view => exact ih

theorem Board.final_concat (role : Role) (board : Board) (commands : List Command)
    (command : Command) :
    board.final role (commands ++ [command]) = (board.final role commands).next role command :=
  List.foldl_concat _ _ _ _

/-- On machine 1 every page begins like the last message for all pages. -/
theorem final_letter (shared : Bool) (commands : List Command) :
    ((Board.mk shared 0).final .server commands).letter = (lastToAll commands).headD 0 := by
  induction commands using List.reverseRecOn with
  | nil => rfl
  | append_singleton commands command ih =>
      rw [Board.final_concat, lastToAll, List.foldl_concat, ← lastToAll]
      cases command with
      | read accessvar => exact ih
      | write accessvar message =>
          by_cases all : accessvar = -1
          · simp only [Board.next, if_pos all]
            rfl
          · simp only [Board.next, if_neg all]
            exact ih
      | view => exact ih

theorem lines_length (shared : Bool) (one other : UInt8) (command : Command) :
    ((Board.mk shared one).lines pgSize command).length =
      ((Board.mk shared other).lines pgSize command).length := by
  cases command with
  | read accessvar =>
      simp only [Board.lines]
      split
      · cases shared with
        | true => rfl
        | false => rfl
      · split
        · simp only [List.length_cons, List.length_replicate]
        · rfl
  | write accessvar message => rfl
  | view => rfl

theorem lines_alike_iff (shared : Bool) (letter : UInt8) (command : Command) :
    (Board.mk shared letter).lines pgSize command = (Board.mk shared 0).lines pgSize command ↔
      (command.PrintsText pgSize → letter = 0) := by
  have texts : ∀ letter other, Line.readingTheString letter = .readingTheString other ↔
      letter = other := fun letter other => ⟨Line.readingTheString.inj, congrArg _⟩
  cases command with
  | read accessvar =>
      by_cases inside : accessvar < pgSize
      · have prints : Command.PrintsText pgSize (.read accessvar) := .inl inside
        rw [Board.lines, Board.lines, if_pos inside, if_pos inside, forall_prop_of_true prints]
        cases shared with
        | true => simp only [Board.reading, if_true, List.cons.injEq, true_and, and_true, texts]
        | false =>
            simp only [Board.reading, Bool.false_eq_true, if_false, List.cons.injEq, true_and,
              and_true, texts]
      · rw [Board.lines, Board.lines, if_neg inside, if_neg inside]
        by_cases all : accessvar = -1
        · rw [if_pos all, if_pos all, List.cons_inj_right, List.cons_inj_right,
            List.replicate_right_inj', texts, Command.PrintsText]
          constructor
          · rintro (none | same) (before | ⟨_, some⟩)
            · exact absurd before inside
            · exact absurd none (Nat.ne_of_gt some)
            · exact same
            · exact same
          · intro heard
            rcases Nat.eq_zero_or_pos pgSize.toNat with none | some
            · exact .inl none
            · exact .inr (heard (.inr ⟨all, some⟩))
        · rw [if_neg all, if_neg all]
          exact iff_of_true rfl (fun prints => absurd prints (by
            rw [Command.PrintsText]
            exact not_or.mpr ⟨inside, fun both => all both.1⟩))
  | write accessvar message => exact iff_of_true rfl (fun prints => prints.elim)
  | view => exact iff_of_true rfl (fun prints => prints.elim)

/-- Each printing command meets what the commands before it leave, the first included. -/
theorem forall_prefix_cons (meets : List Command → Command → Prop) (first : Command)
    (rest : List Command) :
    (∀ before command after, first :: rest = before ++ command :: after →
        meets before command) ↔
      meets [] first ∧ ∀ before command after, rest = before ++ command :: after →
        meets (first :: before) command := by
  constructor
  · intro all
    exact ⟨all [] first rest rfl,
      fun before command after split => all (first :: before) command after (by rw [split]; rfl)⟩
  · rintro ⟨atFirst, later⟩ before command after split
    cases before with
    | nil =>
        obtain ⟨rfl, rfl⟩ := List.cons.inj split
        exact atFirst
    | cons head before =>
        obtain ⟨rfl, remaining⟩ := List.cons.inj split
        exact later before command after remaining

/-- The lines of two boards that differ in the byte only. -/
theorem printed_alike_iff (shared : Bool) (letter : UInt8) (commands : List Command) :
    (Board.mk shared letter).printed .server pgSize commands =
        (Board.mk shared 0).printed .client pgSize commands ↔
      ∀ before command after, commands = before ++ command :: after →
        command.PrintsText pgSize → ((Board.mk shared letter).final .server before).letter = 0 := by
  induction commands generalizing shared letter with
  | nil =>
      exact iff_of_true rfl (fun before command after split =>
        absurd split.symm (by simp))
  | cons command rest ih =>
      obtain ⟨nextShared, nextLetter, server, client⟩ : ∃ nextShared nextLetter,
          (Board.mk shared letter).next .server command = ⟨nextShared, nextLetter⟩ ∧
          (Board.mk shared 0).next .client command = ⟨nextShared, 0⟩ := by
        cases command with
        | read accessvar => exact ⟨_, _, rfl, rfl⟩
        | write accessvar message =>
            by_cases all : accessvar = -1
            · exact ⟨shared, (strBytes message).headD 0, by simp only [Board.next, if_pos all]; rfl,
                by simp only [Board.next, if_pos all]; rfl⟩
            · exact ⟨shared, letter, by simp only [Board.next, if_neg all],
                by simp only [Board.next, if_neg all]⟩
        | view => exact ⟨_, _, rfl, rfl⟩
      have split : (Board.mk shared letter).printed .server pgSize (command :: rest) =
          (Board.mk shared 0).printed .client pgSize (command :: rest) ↔
          (Board.mk shared letter).lines pgSize command =
              (Board.mk shared 0).lines pgSize command ∧
            (Board.mk nextShared nextLetter).printed .server pgSize rest =
              (Board.mk nextShared 0).printed .client pgSize rest := by
        rw [Board.printed, Board.printed, server, client]
        constructor
        · exact fun same => List.append_inj same (lines_length shared letter 0 command)
        · exact fun both => congrArg₂ (· ++ ·) both.1 both.2
      rw [split, lines_alike_iff, ih, forall_prefix_cons (fun before command =>
        command.PrintsText pgSize → ((Board.mk shared letter).final .server before).letter = 0)]
      have later : ∀ before, (Board.mk shared letter).final .server (command :: before) =
          (Board.mk nextShared nextLetter).final .server before := by
        intro before
        rw [Board.final, List.foldl_cons, server, Board.final]
      simp only [later]
      rfl

end Alike

end LKP.Proj3
