import LKP.Dsm.Network

/-
Commands on all pages against commands on one page.

`menu` holds two copies of each command, one for a single page and one in a loop
over all of them.  Here the menu of one machine runs with no receive loop beside
it: it takes the commands typed at its prompt, and each blocked `read` returns
bytes that its surroundings choose.
-/

set_option autoImplicit false

namespace LKP.Dsm

open TransitionRun CBuffer

inductive Command where
  | read (page : Int)
  | write (page : Int) (message : List UInt8)
deriving DecidableEq

/-- What moves a menu on: a command at its prompt, the head of one of its loops, or
the bytes that its blocked `read` returns with. -/
inductive MenuEvent where
  | typed (command : Command)
  | iterate
  | received (bytes : List UInt8)
deriving DecidableEq

def MenuEvent.command : MenuEvent → Option Command
  | .typed command => some command
  | _ => none

def MenuEvent.reply : MenuEvent → Option (List UInt8)
  | .received bytes => some bytes
  | _ => none

def MenuEffect.visible : MenuEffect → List MenuEffect
  | .silent => []
  | .send data => [.send data]
  | .display text => [.display text]

def Command.run (setup : Setup) (machine : Machine) : Command → Machine × MenuEffect
  | .read page => menuRead setup page machine
  | .write page message => menuWrite setup page message machine

def menuLoop (setup : Setup) (machine : Machine) : Option (Machine × MenuEffect) :=
  match machine.menu with
  | .readAll count => some (menuReadAll setup count machine)
  | .writeAll count message => some (menuWriteAll setup count message machine)
  | _ => none

private def shownBy (result : Machine × MenuEffect) : Machine × List MenuEffect :=
  (result.1, result.2.visible)

def menuStep (setup : Setup) : StepFunction Machine MenuEvent MenuEffect
  | machine, .typed command =>
      if machine.menu = .prompt then some (shownBy (command.run setup machine)) else none
  | machine, .iterate => (menuLoop setup machine).map shownBy
  | machine, .received bytes =>
      machine.menu.awaiting.map
        (fun blocked => shownBy (menuReceive setup blocked.1 blocked.2 bytes machine))

/-- From `machine` the menu takes `commands` and receives `replies`, in this order and no
others, and stands at its prompt again in `after`. -/
def Session (setup : Setup) (commands : List Command) (replies : List (List UInt8))
    (machine : Machine) (effects : List MenuEffect) (after : Machine) : Prop :=
  ∃ events, Run (menuStep setup) (fun _ _ => True) machine events effects after ∧
    events.filterMap MenuEvent.command = commands ∧
    events.filterMap MenuEvent.reply = replies ∧ after.menu = .prompt

/-! ### The menu in the network -/

def MenuEffect.outputs (x : Host) : MenuEffect → List Output
  | .silent => []
  | .send data => [.sent x data]
  | .display text => [.displayed x text]

def Event.OfMenu : Event → Prop
  | .read _ _ | .write _ _ _ | .iterate _ | .receive _ => True
  | _ => False

private theorem apply_shownBy (s : System) (x : Host) (result : Machine × MenuEffect) :
    ((s.apply x result).1.machine x, (s.apply x result).2) =
      ((shownBy result).1, (shownBy result).2.flatMap (MenuEffect.outputs x)) := by
  obtain ⟨machine, effect⟩ := result
  cases effect with
  | silent => simp [System.apply, shownBy, MenuEffect.visible]
  | send data => simp [System.apply, shownBy, MenuEffect.visible, MenuEffect.outputs]
  | display text => simp [System.apply, shownBy, MenuEffect.visible, MenuEffect.outputs]

/-- In the network, too, a menu moves by `menuStep`. -/
theorem menuStep_of_step {setup : Setup} {s after : System} {event : Event}
    {shown : List Output} (ofMenu : event.OfMenu)
    (accepted : step setup s event = some (after, shown)) :
    ∃ menuEvent effects,
      menuStep setup (s.machine event.host) menuEvent =
          some (after.machine event.host, effects) ∧
        shown = effects.flatMap (MenuEffect.outputs event.host) := by
  have moved : ∀ (system : System) (x : Host) (result : Machine × MenuEffect),
      some (shownBy result) = some ((system.apply x result).1.machine x, result.2.visible) ∧
        (system.apply x result).2 = result.2.visible.flatMap (MenuEffect.outputs x) := by
    intro system x result
    obtain ⟨machine, outputs⟩ := Prod.mk.inj (apply_shownBy system x result)
    exact ⟨congrArg some (Prod.ext machine.symm rfl), outputs⟩
  cases Performs.of_step accepted with
  | read x page ready =>
      obtain ⟨next, outputs⟩ := moved s x (menuRead setup page (s.machine x))
      exact ⟨.typed (.read page), _, (if_pos ready).trans next, outputs⟩
  | write x page message ready =>
      obtain ⟨next, outputs⟩ := moved s x (menuWrite setup page message (s.machine x))
      exact ⟨.typed (.write page message), _, (if_pos ready).trans next, outputs⟩
  | readAll x count place =>
      obtain ⟨next, outputs⟩ := moved s x (menuReadAll setup count (s.machine x))
      have head : menuLoop setup (s.machine x) =
          some (menuReadAll setup count (s.machine x)) := by rw [menuLoop, place]
      exact ⟨.iterate, _, (congrArg (Option.map shownBy) head).trans next, outputs⟩
  | writeAll x count message place =>
      obtain ⟨next, outputs⟩ := moved s x (menuWriteAll setup count message (s.machine x))
      have head : menuLoop setup (s.machine x) =
          some (menuWriteAll setup count message (s.machine x)) := by rw [menuLoop, place]
      exact ⟨.iterate, _, (congrArg (Option.map shownBy) head).trans next, outputs⟩
  | receive x index following waiting _available =>
      obtain ⟨next, outputs⟩ := moved (s.unread x ((s.replies x).drop setup.pageSize)) x
        (menuReceive setup index following ((s.replies x).take setup.pageSize) (s.machine x))
      exact ⟨.received ((s.replies x).take setup.pageSize), _,
        (congrArg (Option.map _) waiting).trans next, outputs⟩
  | select x page _ready => exact ofMenu.elim
  | enter x message _place => exact ofMenu.elim
  | serve x recvData rest _oldest => exact ofMenu.elim

/-! ### Where a session stands -/

section Steps

variable {setup : Setup} {commands : List Command} {replies : List (List UInt8)}
variable {machine after : Machine} {effects : List MenuEffect}

theorem Session.extend {event : MenuEvent} {next : Machine} {shown remaining : List MenuEffect}
    (accepted : menuStep setup machine event = some (next, shown))
    (rest : Session setup commands replies next remaining after) :
    Session setup (event.command.toList ++ commands) (event.reply.toList ++ replies) machine
      (shown ++ remaining) after := by
  obtain ⟨events, run, taken, received, ready⟩ := rest
  have first : Run (menuStep setup) (fun _ _ => True) machine [event] shown next :=
    Run.one trivial accepted
  refine ⟨[event] ++ events, first.append run, ?_, ?_, ready⟩
  · rw [List.filterMap_append, taken]
    cases event <;> rfl
  · rw [List.filterMap_append, received]
    cases event <;> rfl

theorem session_stop (ready : machine.menu = .prompt) : Session setup [] [] machine [] machine :=
  ⟨[], .stop, rfl, rfl, ready⟩

/-- A session is over or begins with a step that the menu accepts. -/
theorem Session.first (session : Session setup commands replies machine effects after) :
    (machine.menu = .prompt ∧ commands = [] ∧ effects = [] ∧ after = machine) ∨
      ∃ event next shown laterCommands laterReplies remaining,
        menuStep setup machine event = some (next, shown) ∧
        Session setup laterCommands laterReplies next remaining after ∧
        commands = event.command.toList ++ laterCommands ∧
        replies = event.reply.toList ++ laterReplies ∧ effects = shown ++ remaining := by
  obtain ⟨events, run, taken, received, ready⟩ := session
  cases events with
  | nil =>
      obtain ⟨rfl, rfl⟩ := run.nil_inv
      exact .inl ⟨ready, taken.symm, rfl, rfl⟩
  | cons event later =>
      obtain ⟨next, shown, remaining, _admitted, accepted, rest, outputs⟩ := run.uncons
      refine .inr ⟨event, next, shown, _, _, remaining, accepted,
        ⟨later, rest, rfl, rfl, ready⟩, ?_, ?_, outputs⟩
      · rw [← taken]
        cases event <;> rfl
      · rw [← received]
        cases event <;> rfl

theorem session_typed_iff (ready : machine.menu = .prompt) (command : Command) :
    Session setup (command :: commands) replies machine effects after ↔
      ∃ remaining, effects = (command.run setup machine).2.visible ++ remaining ∧
        Session setup commands replies (command.run setup machine).1 remaining after := by
  constructor
  · intro session
    rcases session.first with ⟨_ready, none, _stopped⟩ | ⟨event, next, shown, laterCommands,
      laterReplies, remaining, accepted, rest, taken, received, outputs⟩
    · cases none
    · cases event with
      | typed other =>
          obtain ⟨rfl, rfl⟩ := List.cons.inj taken
          rw [menuStep, if_pos ready] at accepted
          cases accepted
          subst received
          exact ⟨remaining, outputs, rest⟩
      | iterate => simp [menuStep, menuLoop, ready] at accepted
      | received bytes => simp [menuStep, Menu.awaiting, ready] at accepted
  · intro premise
    obtain ⟨remaining, rfl, rest⟩ := premise
    have accepted : menuStep setup machine (.typed command) =
        some (shownBy (command.run setup machine)) := if_pos ready
    exact rest.extend accepted

theorem session_typed (ready : machine.menu = .prompt) {command : Command}
    {result : Machine × MenuEffect} (ran : command.run setup machine = result)
    (rest : Session setup commands replies result.1 effects after) :
    Session setup (command :: commands) replies machine (result.2.visible ++ effects) after := by
  subst ran
  exact (session_typed_iff ready command).mpr ⟨effects, rfl, rest⟩

theorem session_loop_iff {result : Machine × MenuEffect}
    (head : menuLoop setup machine = some result) :
    Session setup commands replies machine effects after ↔
      ∃ remaining, effects = result.2.visible ++ remaining ∧
        Session setup commands replies result.1 remaining after := by
  have place : machine.menu ≠ .prompt ∧ machine.menu.awaiting = none := by
    unfold menuLoop at head
    split at head
    · rename_i count reading
      rw [reading]
      exact ⟨Menu.noConfusion, rfl⟩
    · rename_i count message writing
      rw [writing]
      exact ⟨Menu.noConfusion, rfl⟩
    · cases head
  constructor
  · intro session
    rcases session.first with ⟨ready, _stopped⟩ | ⟨event, next, shown, laterCommands, laterReplies,
      remaining, accepted, rest, taken, received, outputs⟩
    · exact absurd ready place.1
    · cases event with
      | typed command => simp [menuStep, place.1] at accepted
      | iterate =>
          rw [menuStep, head] at accepted
          cases accepted
          subst taken received
          exact ⟨remaining, outputs, rest⟩
      | received bytes => simp [menuStep, place.2] at accepted
  · intro premise
    obtain ⟨remaining, rfl, rest⟩ := premise
    have accepted : menuStep setup machine .iterate = some (shownBy result) :=
      congrArg (Option.map shownBy) head
    exact rest.extend accepted

theorem session_reply_iff {index : Int} {next : Menu}
    (waiting : machine.menu.awaiting = some (index, next)) :
    Session setup commands replies machine effects after ↔
      ∃ bytes later remaining, replies = bytes :: later ∧
        effects = (menuReceive setup index next bytes machine).2.visible ++ remaining ∧
        Session setup commands later (menuReceive setup index next bytes machine).1 remaining
          after := by
  have place : machine.menu ≠ .prompt ∧ menuLoop setup machine = none := by
    unfold menuLoop
    split
    · rename_i count reading
      rw [reading] at waiting
      cases waiting
    · rename_i count message writing
      rw [writing] at waiting
      cases waiting
    · refine ⟨?_, rfl⟩
      intro ready
      rw [ready] at waiting
      cases waiting
  constructor
  · intro session
    rcases session.first with ⟨ready, _stopped⟩ | ⟨event, reached, shown, laterCommands,
      laterReplies, remaining, accepted, rest, taken, received, outputs⟩
    · exact absurd ready place.1
    · cases event with
      | typed command => simp [menuStep, place.1] at accepted
      | iterate => simp [menuStep, place.2] at accepted
      | received bytes =>
          rw [menuStep, waiting] at accepted
          cases accepted
          subst taken
          exact ⟨bytes, laterReplies, remaining, received, outputs, rest⟩
  · intro premise
    obtain ⟨bytes, later, remaining, rfl, rfl, rest⟩ := premise
    have accepted : menuStep setup machine (.received bytes) =
        some (shownBy (menuReceive setup index next bytes machine)) :=
      congrArg (Option.map _) waiting
    exact rest.extend accepted

theorem session_empty_inv (ready : machine.menu = .prompt)
    (session : Session setup [] replies machine effects after) :
    effects = [] ∧ after = machine := by
  rcases session.first with ⟨_ready, _none, silent, same⟩ | ⟨event, next, shown, laterCommands,
    laterReplies, remaining, accepted, _rest, taken, _received, _outputs⟩
  · exact ⟨silent, same⟩
  · cases event with
    | typed command => cases taken
    | iterate => simp [menuStep, menuLoop, ready] at accepted
    | received bytes => simp [menuStep, Menu.awaiting, ready] at accepted

/-- What is typed and what is received leave the menu no choice. -/
theorem Session.unique {otherEffects : List MenuEffect} {otherAfter : Machine}
    (session : Session setup commands replies machine effects after)
    (other : Session setup commands replies machine otherEffects otherAfter) :
    effects = otherEffects ∧ after = otherAfter := by
  obtain ⟨events, run, taken, received, ready⟩ := session
  induction events generalizing commands replies machine effects otherEffects with
  | nil =>
      obtain ⟨rfl, rfl⟩ := run.nil_inv
      subst taken
      obtain ⟨rfl, rfl⟩ := session_empty_inv ready other
      exact ⟨rfl, rfl⟩
  | cons event later ih =>
      obtain ⟨next, shown, remaining, _admitted, accepted, rest, rfl⟩ := run.uncons
      subst taken received
      cases event with
      | typed command =>
          simp only [menuStep] at accepted
          split at accepted
          · rename_i prompt
            cases accepted
            obtain ⟨others, rfl, continued⟩ := (session_typed_iff prompt command).mp other
            obtain ⟨rfl, rfl⟩ := ih continued rest rfl rfl
            exact ⟨rfl, rfl⟩
          · cases accepted
      | iterate =>
          obtain ⟨result, head, same⟩ := Option.map_eq_some_iff.mp accepted
          cases same
          obtain ⟨others, rfl, continued⟩ := (session_loop_iff head).mp other
          obtain ⟨rfl, rfl⟩ := ih continued rest rfl rfl
          exact ⟨rfl, rfl⟩
      | received bytes =>
          obtain ⟨⟨index, following⟩, waiting, same⟩ := Option.map_eq_some_iff.mp accepted
          cases same
          obtain ⟨again, others, left, whole, rfl, continued⟩ :=
            (session_reply_iff waiting).mp other
          obtain ⟨rfl, rfl⟩ := List.cons.inj whole
          obtain ⟨rfl, rfl⟩ := ih continued rest rfl rfl
          exact ⟨rfl, rfl⟩

end Steps

/-! ### One page on either path -/

def Machine.at (machine : Machine) (menu : Menu) : Machine := { machine with menu := menu }

def Machine.named (machine : Machine) (page : Int) : Machine :=
  { machine with tempData := { machine.tempData with pageNum := page } }

section Pages

variable {setup : Setup} {machine after : Machine} {page : Int} {place : Menu}
variable {commands : List Command} {replies : List (List UInt8)} {effects : List MenuEffect}

/-- A page operation does not look at the menu or at the page number that was there. -/
theorem pageRead_named (old : Int) (held waiting : Menu) :
    (machine.named old).pageRead setup page held waiting =
      machine.pageRead setup page held waiting := rfl

theorem pageWrite_at (message : List UInt8) (next : Menu) :
    (machine.at place).pageWrite setup page message next =
      machine.pageWrite setup page message next := rfl

private theorem writeSignals_named (setup : Setup) (entry : MSIList) (index old : Int)
    (data : ProcInfo) :
    writeRequest setup entry index { data with pageNum := old } =
      writeRequest setup entry index data := by
  unfold writeRequest writeSignals
  split
  · rfl
  · split <;> rfl

theorem pageWrite_named (old : Int) (message : List UInt8) (next : Menu) :
    (machine.named old).pageWrite setup page message next =
      machine.pageWrite setup page message next := by
  have same := writeSignals_named setup (machine.listMSI page) page old machine.tempData
  simp only [Machine.pageWrite, Machine.afterWrite, Machine.named, same]

def Machine.afterMissAnswered (setup : Setup) (page : Int) (received : List UInt8)
    (machine : Machine) : Machine :=
  (menuReceive setup page .prompt received
    (machine.afterMiss setup page (.awaitReply page))).1

theorem menuReceive_afterMiss (waiting next : Menu) (received : List UInt8) :
    menuReceive setup page next received (machine.afterMiss setup page waiting) =
      ((machine.afterMissAnswered setup page received).at next,
        .display (cString (memcpy machine.recvMessage 0 received) 0 setup.pageSize)) := rfl

def Machine.hitEffect (setup : Setup) (page : Int) (machine : Machine) : MenuEffect :=
  if (machine.listMSI page).S = true ∨ (machine.listMSI page).M = true then
    .display (machine.pageText setup page)
  else .silent

theorem pageRead_held (held waiting : Menu) (present : (machine.listMSI page).I ≠ true) :
    machine.pageRead setup page held waiting =
      ((machine.afterHit setup page .prompt).at held, machine.hitEffect setup page) := by
  unfold Machine.pageRead Machine.hitEffect
  rw [if_neg present]
  split <;> rfl

theorem afterMiss_awaiting {waiting next : Menu} {index : Int}
    (blocked : waiting.awaiting = some (index, next)) :
    (machine.afterMiss setup page waiting).menu.awaiting = some (index, next) := blocked

theorem pageRead_missed (held waiting : Menu) (absent : (machine.listMSI page).I = true) :
    machine.pageRead setup page held waiting =
      (machine.afterMiss setup page waiting,
        .send (readRequest setup page machine.tempData)) := if_pos absent

end Pages

/-! ### The loops, one page at a time -/

def onPages (command : Int → Command) (first count : Nat) : List Command :=
  (List.range' first count).map (fun page : Nat => command page)

theorem onPages_succ (command : Int → Command) (first count : Nat) :
    onPages command first (count + 1) = command first :: onPages command (first + 1) count := by
  unfold onPages
  rw [List.range'_succ, List.map_cons]

section Loops

variable {setup : Setup} {after : Machine} {effects : List MenuEffect}

/-- The loop of a `w` does the single commands that are left. -/
theorem session_writeAll_iff (message : List UInt8) {first count : Nat} {machine : Machine}
    (left : machine.tempData.pageCount = (first + count : Nat))
    (small : machine.tempData.pageCount ≤ maxSize) (replies : List (List UInt8)) :
    Session setup [] replies (machine.at (.writeAll first message)) effects after ↔
      Session setup (onPages (.write · message) first count) replies (machine.at .prompt)
        effects after := by
  induction count generalizing first machine effects with
  | zero =>
      have done : ¬ (first : Int) < machine.tempData.pageCount := by omega
      have head : menuLoop setup (machine.at (.writeAll first message)) =
          some (machine.at .prompt, .silent) :=
        congrArg some (menuWriteAll_done message done)
      rw [session_loop_iff head]
      simp [MenuEffect.visible, onPages]
  | succ count ih =>
      have more : (first : Int) < machine.tempData.pageCount := by omega
      have head : menuLoop setup (machine.at (.writeAll first message)) =
          some (machine.pageWrite setup first message (.writeAll (first + 1) message)) :=
        congrArg some (menuWriteAll_more message more)
      have lower : (0 : Int) ≤ first := by omega
      have upper : (first : Int) < maxSize := by omega
      have single : (Command.write first message).run setup (machine.at .prompt) =
          machine.pageWrite setup first message .prompt :=
        (menuWrite_page setup lower upper message (machine.at .prompt)).trans
          (pageWrite_at message .prompt)
      rw [session_loop_iff head, onPages_succ, session_typed_iff rfl, single]
      apply exists_congr
      intro remaining
      apply and_congr Iff.rfl
      have left' : (machine.afterWrite setup first message .prompt).tempData.pageCount =
          (first + 1 + count : Nat) := by
        rw [afterWrite_tempData, writeRequest_pageCount]
        omega
      have small' : (machine.afterWrite setup first message .prompt).tempData.pageCount ≤
          maxSize := by
        rw [afterWrite_tempData, writeRequest_pageCount]
        exact small
      exact ih left' small'

/-- The loop of an `r` does the single commands that are left, with the same replies. -/
theorem session_readAll_iff {first count : Nat} {machine : Machine}
    (left : machine.tempData.pageCount = (first + count : Nat))
    (small : machine.tempData.pageCount ≤ maxSize) (replies : List (List UInt8)) :
    Session setup [] replies (machine.at (.readAll first)) effects after ↔
      Session setup (onPages .read first count) replies (machine.at .prompt) effects after := by
  induction count generalizing first machine effects replies with
  | zero =>
      have done : ¬ (first : Int) < machine.tempData.pageCount := by omega
      have head : menuLoop setup (machine.at (.readAll first)) =
          some (machine.at .prompt, .silent) :=
        congrArg some (menuReadAll_done done)
      rw [session_loop_iff head]
      simp [MenuEffect.visible, onPages]
  | succ count ih =>
      have more : (first : Int) < machine.tempData.pageCount := by omega
      have head : menuLoop setup (machine.at (.readAll first)) =
          some (machine.pageRead setup first (.readAll (first + 1)) (.awaitReplyAll first)) :=
        congrArg some (menuReadAll_more more)
      have lower : (0 : Int) ≤ first := by omega
      have upper : (first : Int) < maxSize := by omega
      have single : (Command.read first).run setup (machine.at .prompt) =
          machine.pageRead setup first .prompt (.awaitReply first) :=
        menuRead_page setup lower upper (machine.at .prompt)
      have left' : machine.tempData.pageCount = (first + 1 + count : Nat) := by omega
      rw [session_loop_iff head, onPages_succ, session_typed_iff rfl, single]
      by_cases absent : (machine.listMSI first).I = true
      · rw [pageRead_missed _ _ absent, pageRead_missed _ _ absent]
        apply exists_congr
        intro remaining
        apply and_congr Iff.rfl
        rw [session_reply_iff (afterMiss_awaiting rfl), session_reply_iff (afterMiss_awaiting rfl)]
        apply exists_congr
        intro bytes
        rw [menuReceive_afterMiss, menuReceive_afterMiss]
        apply exists_congr
        intro later
        apply exists_congr
        intro shown
        apply and_congr Iff.rfl
        apply and_congr Iff.rfl
        have answered := @ih shown (first + 1)
          (machine.afterMissAnswered setup first bytes) left' small later
        exact answered
      · rw [pageRead_held _ _ absent, pageRead_held _ _ absent]
        apply exists_congr
        intro remaining
        apply and_congr Iff.rfl
        have held := @ih remaining (first + 1) (machine.afterHit setup first .prompt) left'
          small replies
        exact held

end Loops

/-! ### Sessions that finish -/

/-- How many of the pages from `first` on a read would miss. -/
def Machine.misses (machine : Machine) (first count : Nat) : Nat :=
  (List.range' first count).countP (fun page : Nat => (machine.listMSI page).I)

theorem misses_succ (machine : Machine) (first count : Nat) :
    machine.misses first (count + 1) =
      machine.misses (first + 1) count + if (machine.listMSI first).I = true then 1 else 0 := by
  unfold Machine.misses
  rw [List.range'_succ, List.countP_cons]

theorem misses_congr {left right : Machine} {first count : Nat}
    (same : ∀ page : Nat, first ≤ page → left.listMSI page = right.listMSI page) :
    left.misses first count = right.misses first count := by
  apply List.countP_congr
  intro page member
  rw [same page (List.mem_range'_1.mp member).1]

theorem session_writes_finish (setup : Setup) (message : List UInt8) {first count : Nat}
    {machine : Machine} (ready : machine.menu = .prompt)
    (small : (first + count : Nat) ≤ maxSize) :
    ∃ effects after,
      Session setup (onPages (.write · message) first count) [] machine effects after := by
  induction count generalizing first machine with
  | zero => exact ⟨[], machine, session_stop ready⟩
  | succ count ih =>
      have lower : (0 : Int) ≤ first := by omega
      have upper : (first : Int) < maxSize := by omega
      have single : (Command.write first message).run setup machine =
          machine.pageWrite setup first message .prompt :=
        menuWrite_page setup lower upper message machine
      have small' : (first + 1 + count : Nat) ≤ maxSize := by omega
      obtain ⟨effects, after, rest⟩ :=
        @ih (first + 1) (machine.pageWrite setup first message .prompt).1 rfl small'
      rw [onPages_succ]
      exact ⟨_, after, session_typed ready single rest⟩

/-- With one reply for each miss, whatever bytes they are, the reads come to their end. -/
theorem session_reads_finish (setup : Setup) {first count : Nat} {machine : Machine}
    (ready : machine.menu = .prompt) (small : (first + count : Nat) ≤ maxSize)
    {replies : List (List UInt8)} (enough : replies.length = machine.misses first count) :
    ∃ effects after, Session setup (onPages .read first count) replies machine effects after := by
  induction count generalizing first machine replies with
  | zero =>
      have none : replies = [] := List.eq_nil_of_length_eq_zero enough
      subst none
      exact ⟨[], machine, session_stop ready⟩
  | succ count ih =>
      have lower : (0 : Int) ≤ first := by omega
      have upper : (first : Int) < maxSize := by omega
      have single : (Command.read first).run setup machine =
          machine.pageRead setup first .prompt (.awaitReply first) :=
        menuRead_page setup lower upper machine
      have small' : (first + 1 + count : Nat) ≤ maxSize := by omega
      rw [misses_succ] at enough
      by_cases absent : (machine.listMSI first).I = true
      · rw [if_pos absent] at enough
        obtain ⟨bytes, later, rfl⟩ := List.exists_cons_of_length_eq_add_one enough
        have others : ∀ page : Nat, first + 1 ≤ page →
            (machine.afterMissAnswered setup first bytes).listMSI page =
              machine.listMSI page := by
          intro page beyond
          apply Function.update_of_ne
          omega
        have enough' : later.length =
            (machine.afterMissAnswered setup first bytes).misses (first + 1) count := by
          rw [misses_congr others]
          exact Nat.succ.inj enough
        obtain ⟨effects, after, rest⟩ := ih rfl small' enough'
        rw [pageRead_missed _ _ absent] at single
        have answered := (session_reply_iff (afterMiss_awaiting rfl)).mpr
          ⟨bytes, later, effects, rfl, rfl, rest⟩
        rw [onPages_succ]
        exact ⟨_, after, session_typed ready single answered⟩
      · rw [if_neg absent, Nat.add_zero] at enough
        have enough' : replies.length =
            (machine.afterHit setup first .prompt).misses (first + 1) count := enough
        obtain ⟨effects, after, rest⟩ := ih rfl small' enough'
        rw [pageRead_held _ _ absent] at single
        rw [onPages_succ]
        exact ⟨_, after, session_typed ready single rest⟩

/-! ### The two commands on all pages -/

/-- A command on -1 shows nothing itself, and its number is gone after the first page. -/
private theorem session_enter_iff {setup : Setup} {machine after : Machine} {place : Menu}
    {command : Command} {replies : List (List UInt8)} {effects : List MenuEffect}
    {result : Machine × MenuEffect} (ready : machine.menu = .prompt)
    (entered : command.run setup machine = ((machine.named (-1)).at place, .silent))
    (numbered : menuLoop setup ((machine.named (-1)).at place) = some result)
    (plain : menuLoop setup (machine.at place) = some result) :
    Session setup [command] replies machine effects after ↔
      Session setup [] replies (machine.at place) effects after := by
  rw [session_typed_iff ready, entered, session_loop_iff plain, ← session_loop_iff numbered]
  simp [MenuEffect.visible]

theorem onPages_range (command : Int → Command) (count : Nat) :
    onPages command 0 count = (List.range count).map (fun page : Nat => command page) := by
  unfold onPages
  rw [List.range_eq_range']

section All

variable {setup : Setup} {machine : Machine} (ready : machine.menu = .prompt)
variable (some : 1 ≤ machine.tempData.pageCount) (small : machine.tempData.pageCount ≤ maxSize)
include ready some small

theorem writeAll_iff (message : List UInt8) (replies : List (List UInt8))
    (effects : List MenuEffect) (after : Machine) :
    Session setup [.write (-1) message] replies machine effects after ↔
      Session setup (onPages (.write · message) 0 machine.tempData.pageCount.toNat) replies
        machine effects after := by
  have left : machine.tempData.pageCount = (0 + machine.tempData.pageCount.toNat : Nat) := by
    omega
  have more : (0 : Int) < machine.tempData.pageCount := by omega
  have atPrompt : machine.at .prompt = machine := by rw [← ready]; rfl
  have plain : menuLoop setup (machine.at (.writeAll 0 message)) =
      .some (machine.pageWrite setup 0 message (.writeAll (0 + 1) message)) :=
    congrArg Option.some (menuWriteAll_more message more)
  have numbered : menuLoop setup ((machine.named (-1)).at (.writeAll 0 message)) =
      .some (machine.pageWrite setup 0 message (.writeAll (0 + 1) message)) := by
    rw [← pageWrite_named (-1)]
    exact congrArg Option.some (menuWriteAll_more message more)
  have entered : (Command.write (-1) message).run setup machine =
      ((machine.named (-1)).at (.writeAll 0 message), .silent) :=
    menuWrite_all setup message machine
  rw [session_enter_iff ready entered numbered plain]
  have loop := @session_writeAll_iff setup after effects message 0 _ machine left small replies
  rw [atPrompt] at loop
  exact loop

theorem readAll_iff (replies : List (List UInt8)) (effects : List MenuEffect)
    (after : Machine) :
    Session setup [.read (-1)] replies machine effects after ↔
      Session setup (onPages .read 0 machine.tempData.pageCount.toNat) replies machine effects
        after := by
  have left : machine.tempData.pageCount = (0 + machine.tempData.pageCount.toNat : Nat) := by
    omega
  have more : (0 : Int) < machine.tempData.pageCount := by omega
  have atPrompt : machine.at .prompt = machine := by rw [← ready]; rfl
  have plain : menuLoop setup (machine.at (.readAll 0)) =
      .some (machine.pageRead setup 0 (.readAll (0 + 1)) (.awaitReplyAll 0)) :=
    congrArg Option.some (menuReadAll_more more)
  have numbered : menuLoop setup ((machine.named (-1)).at (.readAll 0)) =
      .some (machine.pageRead setup 0 (.readAll (0 + 1)) (.awaitReplyAll 0)) := by
    rw [← pageRead_named (-1)]
    exact congrArg Option.some (menuReadAll_more more)
  have entered : (Command.read (-1)).run setup machine =
      ((machine.named (-1)).at (.readAll 0), .silent) := menuRead_all setup machine
  rw [session_enter_iff ready entered numbered plain]
  have loop := @session_readAll_iff setup after effects 0 _ machine left small replies
  rw [atPrompt] at loop
  exact loop

end All

/-- `w` and `r` on -1 and on the pages one after the other: one outcome, and the same. -/
theorem bulkCommands_agree (setup : Setup) (machine : Machine) (ready : machine.menu = .prompt)
    (some : 1 ≤ machine.tempData.pageCount) (small : machine.tempData.pageCount ≤ maxSize) :
    (∀ message,
      (∃! outcome : List MenuEffect × Machine,
        Session setup [.write (-1) message] [] machine outcome.1 outcome.2) ∧
      ∀ effects after,
        Session setup [.write (-1) message] [] machine effects after ↔
          Session setup
            ((List.range machine.tempData.pageCount.toNat).map
              (fun page : Nat => .write page message)) [] machine effects after) ∧
    ∀ replies : List (List UInt8),
      (replies.length = machine.misses 0 machine.tempData.pageCount.toNat →
        ∃! outcome : List MenuEffect × Machine,
          Session setup [.read (-1)] replies machine outcome.1 outcome.2) ∧
      ∀ effects after,
        Session setup [.read (-1)] replies machine effects after ↔
          Session setup
            ((List.range machine.tempData.pageCount.toNat).map (fun page : Nat => .read page))
            replies machine effects after := by
  have only : ∀ (command : Command) (replies : List (List UInt8)),
      (∃ effects after, Session setup [command] replies machine effects after) →
      ∃! outcome : List MenuEffect × Machine,
        Session setup [command] replies machine outcome.1 outcome.2 := by
    intro command replies finishes
    obtain ⟨effects, after, session⟩ := finishes
    refine ⟨(effects, after), session, ?_⟩
    intro outcome other
    obtain ⟨sameEffects, sameAfter⟩ := other.unique session
    exact Prod.ext sameEffects sameAfter
  have bounded : ((0 + machine.tempData.pageCount.toNat : Nat) : Int) ≤ maxSize := by omega
  constructor
  · intro message
    have loop := @writeAll_iff setup machine ready some small message []
    rw [onPages_range] at loop
    refine ⟨only _ _ ?_, loop⟩
    obtain ⟨effects, after, session⟩ := session_writes_finish setup message ready bounded
    rw [onPages_range] at session
    exact ⟨effects, after, (loop effects after).mpr session⟩
  · intro replies
    have loop := @readAll_iff setup machine ready some small replies
    rw [onPages_range] at loop
    refine ⟨fun enough => only _ _ ?_, loop⟩
    obtain ⟨effects, after, session⟩ := session_reads_finish setup ready bounded enough
    rw [onPages_range] at session
    exact ⟨effects, after, (loop effects after).mpr session⟩

/-- On a machine as start-up leaves it: a message for both pages, and two missed pages. -/
theorem bulkCommands_agree_fresh :
    (∃ effects after,
      Session twoPages [.write (-1) [104, 105]] [] (freshMachine twoPages) effects after ∧
        Session twoPages [.write 0 [104, 105], .write 1 [104, 105]] [] (freshMachine twoPages)
          effects after) ∧
    ∃ effects after,
      Session twoPages [.read (-1)] [[104, 105], [32]] (freshMachine twoPages) effects after ∧
        Session twoPages [.read 0, .read 1] [[104, 105], [32]] (freshMachine twoPages) effects
          after := by
  obtain ⟨writes, reads⟩ := bulkCommands_agree twoPages (freshMachine twoPages) rfl (by decide)
    (by decide)
  constructor
  · obtain ⟨⟨outcome, session, _only⟩, same⟩ := writes [104, 105]
    exact ⟨outcome.1, outcome.2, session, (same _ _).mp session⟩
  · obtain ⟨finishes, same⟩ := reads [[104, 105], [32]]
    obtain ⟨outcome, session, _only⟩ := finishes (by decide)
    exact ⟨outcome.1, outcome.2, session, (same _ _).mp session⟩

end LKP.Dsm
