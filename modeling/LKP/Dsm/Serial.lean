import LKP.Library.TwoCacheMsi
import LKP.Dsm.Network

/-
Serial runs: a command starts only when the one before it has been completed.

While one machine executes a command the other only receives.  What the receiver
will be once it has received everything in flight moves with every page access as
a textbook cache does, whatever the order in which structs and replies are really
handled.  One fact about the signals carries this: an owned page has its read signal
off in both copies of `temp_data`.
-/

set_option autoImplicit false

namespace LKP.Dsm

open TransitionRun CBuffer TwoCacheMsi

/-! ### Commands as sequences of page accesses -/

/-- No command is being executed: both menus prompt and nothing is in flight. -/
def Settled (s : System) : Prop := ∀ x, (s.machine x).menu = .prompt ∧ s.inbox x = []

theorem settled_iff (s : System) :
    Settled s ↔
      ((s.machine .one).menu = .prompt ∧ (s.inbox .one).isEmpty = true) ∧
        ((s.machine .two).menu = .prompt ∧ (s.inbox .two).isEmpty = true) := by
  constructor
  · intro settled
    exact ⟨⟨(settled .one).1, List.isEmpty_iff.mpr (settled .one).2⟩,
      ⟨(settled .two).1, List.isEmpty_iff.mpr (settled .two).2⟩⟩
  · rintro ⟨one, two⟩ x
    cases x with
    | one => exact ⟨one.1, List.isEmpty_iff.mp one.2⟩
    | two => exact ⟨two.1, List.isEmpty_iff.mp two.2⟩

instance (s : System) : Decidable (Settled s) := decidable_of_iff _ (settled_iff s).symm

/-- The pages the loops of a command on -1 have yet to visit at `count`. -/
def Setup.pagesFrom (setup : Setup) (count : Int) : List Int :=
  (List.range (setup.pageCount - count).toNat).map (fun index : Nat => count + index)

def Setup.pagesOf (setup : Setup) (page : Int) : List Int :=
  if page = -1 then setup.pagesFrom 0 else [page]

/-- The page exists, or the command is on every page and all of them exist. -/
def Setup.Commandable (setup : Setup) (page : Int) : Prop :=
  setup.InRange page ∨ (page = -1 ∧ setup.pageCount ≤ maxSize)

instance (setup : Setup) (page : Int) : Decidable (setup.Commandable page) :=
  inferInstanceAs (Decidable (_ ∨ _))

/-- A command starts when none is being executed; the loops go on as they like. -/
def Serial (setup : Setup) (s : System) : Event → Prop
  | .read _ page => setup.Commandable page ∧ Settled s
  | .write _ page _ => setup.Commandable page ∧ Settled s
  | .select _ _ | .enter _ _ => False
  | .iterate _ | .receive _ | .serve _ => True

instance (setup : Setup) (s : System) (event : Event) : Decidable (Serial setup s event) :=
  match event with
  | .read _ _ | .write _ _ _ => inferInstanceAs (Decidable (_ ∧ _))
  | .select _ _ | .enter _ _ => inferInstanceAs (Decidable False)
  | .iterate _ | .receive _ | .serve _ => inferInstanceAs (Decidable True)

def accesses (x : Host) (access : Access) (pages : List Int) : List (Operation Host Int) :=
  pages.map (fun page => ⟨x, page, access⟩)

def Event.operations (setup : Setup) : Event → List (Operation Host Int)
  | .read x page => accesses x .load (setup.pagesOf page)
  | .write x page _ => accesses x .store (setup.pagesOf page)
  | _ => []

def operations (setup : Setup) (events : List Event) : List (Operation Host Int) :=
  events.flatMap (Event.operations setup)

def Menu.remaining (setup : Setup) (x : Host) : Menu → List (Operation Host Int)
  | .readAll count => accesses x .load (setup.pagesFrom count)
  | .awaitReplyAll count => accesses x .load (setup.pagesFrom (count + 1))
  | .writeAll count _ => accesses x .store (setup.pagesFrom count)
  | _ => []

theorem pagesFrom_more {setup : Setup} {count : Int} (more : count < setup.pageCount) :
    setup.pagesFrom count = count :: setup.pagesFrom (count + 1) := by
  have length : (setup.pageCount - count).toNat =
      (setup.pageCount - (count + 1)).toNat + 1 := by
    omega
  unfold Setup.pagesFrom
  rw [length, List.range_succ_eq_map, List.map_cons, List.map_map]
  congr 1
  · simp
  · apply List.map_congr_left
    intro index _member
    simp only [Function.comp_apply, Nat.succ_eq_add_one, Int.natCast_add, Int.natCast_one]
    omega

theorem pagesFrom_done {setup : Setup} {count : Int} (done : ¬ count < setup.pageCount) :
    setup.pagesFrom count = [] := by
  have length : (setup.pageCount - count).toNat = 0 := by omega
  rw [Setup.pagesFrom, length]
  rfl

theorem pagesOf_inRange {setup : Setup} {page : Int} (commandable : setup.Commandable page)
    {index : Int} (member : index ∈ setup.pagesOf page) : setup.InRange index := by
  unfold Setup.pagesOf at member
  rcases commandable with inRange | ⟨rfl, fits⟩
  · rw [if_neg (Setup.inRange_ne_all inRange)] at member
    rw [List.mem_singleton.mp member]
    exact inRange
  · rw [if_pos rfl] at member
    obtain ⟨offset, within, rfl⟩ := List.mem_map.mp member
    rw [List.mem_range] at within
    exact ⟨by omega, by omega, by omega⟩

theorem operations_append (setup : Setup) (events : List Event) (event : Event) :
    operations setup (events ++ [event]) =
      operations setup events ++ event.operations setup := by
  simp only [operations, List.flatMap_append, List.flatMap_cons, List.flatMap_nil,
    List.append_nil]

/-- The replies that were sent: who read, and which page. -/
def answered (outputs : List Output) : List (Host × Int) :=
  outputs.filterMap fun output =>
    match output with
    | .replied reader page _ => some (reader, page)
    | _ => none

theorem answered_append (outputs shown : List Output) :
    answered (outputs ++ shown) = answered outputs ++ answered shown :=
  List.filterMap_append ..

/-! ### A machine once it has received what is in flight -/

def Machine.received (machine : Machine) (structs : List ProcInfo) : Machine :=
  structs.foldl (fun current data => current.afterServe data) machine

def System.drained (s : System) (x : Host) : Machine := (s.machine x).received (s.inbox x)

def Machine.replies (machine : Machine) (data : ProcInfo) : Bool :=
  (serverReply (machine.listMSI data.pageNum) data []).isSome

theorem serverReply_isSome (entry : MSIList) (data : ProcInfo) (text : List UInt8) :
    (serverReply entry data text).isSome = (serverReply entry data []).isSome := by
  unfold serverReply
  simp only []
  split
  · rfl
  · rfl

def promised (reader : Host) (machine : Machine) : List ProcInfo → List (Host × Int)
  | [] => []
  | data :: rest =>
      (if machine.replies data then [(reader, data.pageNum)] else []) ++
        promised reader (machine.afterServe data) rest

theorem received_append (machine : Machine) (structs : List ProcInfo) (data : ProcInfo) :
    machine.received (structs ++ [data]) = (machine.received structs).afterServe data := by
  simp only [Machine.received, List.foldl_append, List.foldl_cons, List.foldl_nil]

theorem promised_append (reader : Host) (machine : Machine) (structs : List ProcInfo)
    (data : ProcInfo) :
    promised reader machine (structs ++ [data]) =
      promised reader machine structs ++
        if (machine.received structs).replies data then [(reader, data.pageNum)] else [] := by
  induction structs generalizing machine with
  | nil =>
      simp only [List.nil_append, promised, List.append_nil]
      rfl
  | cons head rest ih =>
      simp only [List.cons_append, promised, ih, List.append_assoc]
      rfl

@[simp] theorem received_addr (machine : Machine) (structs : List ProcInfo) :
    (machine.received structs).addr = machine.addr := by
  induction structs generalizing machine with
  | nil => rfl
  | cons head rest ih => exact ih (machine.afterServe head)

theorem drained_of_empty {s : System} {x : Host} (empty : s.inbox x = []) :
    s.drained x = s.machine x := by
  rw [System.drained, empty]
  rfl

/-! ### Agreement with a table of lines -/

def modeEntry : Mode → MSIList
  | .modified => .modified
  | .shared => .shared
  | .invalid => .invalid

theorem modeEntry_oneHot (mode : Mode) : (modeEntry mode).OneHot := by
  cases mode with
  | modified => exact .inl rfl
  | shared => exact .inr (.inl rfl)
  | invalid => exact .inr (.inr rfl)

/-- Two machines hold the pages as the table says, and the read signal of an owned page is
off on both. -/
structure Agrees (setup : Setup) (table : Table Host Int) (machines : Host → Machine) :
    Prop where
  entries : ∀ x page, setup.InRange page →
    (machines x).listMSI page = modeEntry ((table page).mode x)
  quiet : ∀ x owner page, setup.InRange page → table page = .owned owner →
    (machines x).tempData.readSignal page = 0

section Accesses

variable {setup : Setup} {table : Table Host Int} {machines after : Host → Machine}
variable {x : Host} {page : Int} {next : Menu}

theorem Agrees.oneHot (agrees : Agrees setup table machines) (z : Host)
    (inRange : setup.InRange page) : ((machines z).listMSI page).OneHot := by
  rw [agrees.entries z page inRange]
  exact modeEntry_oneHot _

theorem Agrees.absent_iff (agrees : Agrees setup table machines)
    (inRange : setup.InRange page) :
    ((machines x).listMSI page).I = true ↔ (table page).mode x = .invalid := by
  rw [agrees.entries x page inRange]
  cases (table page).mode x with
  | modified => exact iff_of_false (by decide) (by decide)
  | shared => exact iff_of_false (by decide) (by decide)
  | invalid => exact iff_of_true rfl rfl

/-- What neither the entries nor the read signals see. -/
theorem Agrees.of_same (agrees : Agrees setup table machines)
    (entries : ∀ z, (after z).listMSI = (machines z).listMSI)
    (signals : ∀ z index, (machines z).tempData.readSignal index = 0 →
      (after z).tempData.readSignal index = 0) : Agrees setup table after where
  entries z index inRange := by
    rw [entries z]
    exact agrees.entries z index inRange
  quiet z owner index inRange owned :=
    signals z index (agrees.quiet z owner index inRange owned)

theorem apply_load_hit {cache : Host} (held : (table page).mode cache ≠ .invalid) :
    table.apply ⟨cache, page, .load⟩ = table := by
  unfold Table.apply
  rw [after_load, if_neg held, Function.update_eq_self]

theorem Agrees.peer_of_miss (agrees : Agrees setup table machines)
    (inRange : setup.InRange page) (missing : (table page).mode x = .invalid) :
    (machines x.peer).listMSI page = .modified ∨
      (machines x.peer).listMSI page = .invalid := by
  rw [agrees.entries x.peer page inRange]
  cases known : table page with
  | unowned => exact .inr rfl
  | owned owner =>
      rw [known] at missing
      rcases Host.eq_or_eq_peer x owner with rfl | rfl
      · rw [mode_owned_self] at missing
        cases missing
      · rw [mode_owned_self]
        exact .inl rfl
  | shared =>
      rw [known] at missing
      cases missing

theorem Agrees.load_miss (agrees : Agrees setup table machines)
    (inRange : setup.InRange page) (missing : (table page).mode x = .invalid)
    (own : after x = (machines x).afterMiss setup page next)
    (other : after x.peer =
      (machines x.peer).afterServe (readRequest setup page (machines x).tempData)) :
    Agrees setup (table.apply ⟨x, page, .load⟩) after := by
  have shared : table.apply ⟨x, page, .load⟩ page = .shared := by
    rw [apply_same, after_load, if_pos missing]
  have peer := agrees.peer_of_miss inRange missing
  constructor
  · intro z index named
    by_cases same : index = page
    · subst same
      rw [shared]
      rcases Host.eq_or_eq_peer x z with rfl | rfl
      · rw [own, afterMiss_listMSI]
        exact Function.update_self ..
      · rw [other, afterServe_listMSI, readRequest_pageNum, Function.update_self]
        rcases peer with modified | invalid
        · rw [modified, serverEntry_modified, readRequest_pageNum,
            if_pos (readRequest_readSignal ..)]
          rfl
        · rw [invalid, serverEntry_invalid, readRequest_pageNum,
            if_pos (readRequest_readSignal ..)]
          rfl
    · rw [apply_other _ _ same, ← agrees.entries z index named]
      rcases Host.eq_or_eq_peer x z with rfl | rfl
      · rw [own]
        exact Function.update_of_ne same ..
      · rw [other]
        exact Function.update_of_ne same ..
  · intro z owner index named owned
    have same : index ≠ page := by
      intro same
      subst same
      rw [shared] at owned
      cases owned
    rw [apply_other _ _ same] at owned
    have request : (readRequest setup page (machines x).tempData).readSignal index =
        (machines x).tempData.readSignal index := Function.update_of_ne same ..
    rcases Host.eq_or_eq_peer x z with rfl | rfl
    · rw [own, afterMiss_tempData, request]
      exact agrees.quiet z owner index named owned
    · rw [other, afterServe_tempData, request]
      exact agrees.quiet x owner index named owned

theorem Agrees.store_off (agrees : Agrees setup table machines)
    (inRange : setup.InRange page) :
    (writeRequest setup ((machines x).listMSI page) page (machines x).tempData).readSignal
      page = 0 := by
  by_cases owned : (machines x).listMSI page = .modified
  · rw [owned, writeRequest_modified]
    rw [agrees.entries x page inRange] at owned
    cases known : table page with
    | unowned =>
        rw [known] at owned
        cases owned
    | owned owner => exact agrees.quiet x owner page inRange known
    | shared =>
        rw [known] at owned
        cases owned
  · exact writeRequest_readSignal_off setup (agrees.oneHot x inRange) owned page _

theorem Agrees.store (agrees : Agrees setup table machines) (message : List UInt8)
    (inRange : setup.InRange page)
    (own : after x = (machines x).afterWrite setup page message next)
    (other : after x.peer = (machines x.peer).afterServe
      (writeRequest setup ((machines x).listMSI page) page (machines x).tempData)) :
    Agrees setup (table.apply ⟨x, page, .store⟩) after := by
  have owned : table.apply ⟨x, page, .store⟩ page = .owned x := apply_same ..
  have off := agrees.store_off (x := x) inRange
  constructor
  · intro z index named
    by_cases same : index = page
    · subst same
      rw [owned]
      rcases Host.eq_or_eq_peer x z with rfl | rfl
      · rw [own, afterWrite_listMSI, mode_owned_self]
        exact Function.update_self ..
      · rw [other, afterServe_listMSI, writeRequest_pageNum, Function.update_self,
          mode_owned_other (Host.peer_ne x)]
        exact serverEntry_of_read_off (agrees.oneHot x.peer named) off
    · rw [apply_other _ _ same, ← agrees.entries z index named]
      rcases Host.eq_or_eq_peer x z with rfl | rfl
      · rw [own]
        exact Function.update_of_ne same ..
      · rw [other]
        exact Function.update_of_ne same ..
  · intro z owner index named ownedBy
    have sent : (writeRequest setup ((machines x).listMSI page) page
        (machines x).tempData).readSignal index = 0 := by
      by_cases same : index = page
      · rw [same]
        exact off
      · rw [apply_other _ _ same] at ownedBy
        exact (writeSignals_other _ same _).1.trans
          (agrees.quiet x owner index named ownedBy)
    rcases Host.eq_or_eq_peer x z with rfl | rfl
    · rw [own]
      exact sent
    · rw [other]
      exact sent

end Accesses

end LKP.Dsm
