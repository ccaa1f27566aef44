import LKP.Dsm.RegionBounds
import LKP.Dsm.Undisturbed

/-
Messages shorter than a page leave every page terminated.

The last byte of a page is zero in fresh memory, a read miss clears it, and a message
that is shorter than the page does not reach it.  So a flush finds a NUL, and what is
typed decides alone whether the commands stay inside.
-/

set_option autoImplicit false

namespace LKP.Dsm

open TransitionRun CBuffer

/-! ### Numbers and messages alone -/

def Event.ShortMessage (setup : Setup) : Event → Prop
  | .write _ _ message | .enter _ message => (strBytes message).length < setup.pageSize
  | _ => True

structure Machine.Tidy (setup : Setup) (machine : Machine) : Prop
    extends machine.Bounded setup where
  terminated : machine.Terminated setup
  short : ∀ count message, machine.menu = .writeAll count message →
    (strBytes message).length < setup.pageSize

theorem Machine.Terminated.endsWithin {setup : Setup} {machine : Machine} {page : Int}
    (terminated : machine.Terminated setup) (inRange : setup.InRange page) :
    machine.EndsWithin setup page :=
  ⟨setup.pageSize - 1, Nat.sub_lt setup.pageSize_pos Nat.one_pos, terminated page inRange⟩

section Last

variable {setup : Setup} {machine : Machine} {page : Int}

theorem MenuKeeps.tidy {result : Machine × MenuEffect}
    (kept : MenuKeeps (Machine.Bounded setup) (ProcInfo.Counted setup) result)
    (terminated : result.1.Terminated setup)
    (short : ∀ count message, result.1.menu = .writeAll count message →
      (strBytes message).length < setup.pageSize) :
    MenuKeeps (Machine.Tidy setup) (ProcInfo.Counted setup) result :=
  ⟨⟨kept.1, terminated, short⟩, kept.2⟩

theorem pageRead_terminated (terminated : machine.Terminated setup) (index : Int)
    (held waiting : Menu) :
    (machine.pageRead setup index held waiting).1.Terminated setup := by
  unfold Machine.pageRead
  split
  · intro last inRange
    exact terminated.memset _ _ inRange
  · split
    · exact terminated
    · exact terminated

theorem pageRead_place (index : Int) (held waiting : Menu) :
    (machine.pageRead setup index held waiting).1.menu = held ∨
      (machine.pageRead setup index held waiting).1.menu = waiting := by
  unfold Machine.pageRead
  split
  · exact .inr rfl
  · split
    · exact .inl rfl
    · exact .inl rfl

/-- A read never stands at the head of a loop that writes. -/
theorem pageRead_short {index : Int} {held waiting : Menu}
    (heldOther : ∀ count message, held ≠ .writeAll count message)
    (waitingOther : ∀ count message, waiting ≠ .writeAll count message)
    (count : Int) (message : List UInt8)
    (place : (machine.pageRead setup index held waiting).1.menu = .writeAll count message) :
    (strBytes message).length < setup.pageSize := by
  rcases @pageRead_place setup machine index held waiting with atHeld | atWaiting
  · exact absurd (atHeld.symm.trans place) (heldOther count message)
  · exact absurd (atWaiting.symm.trans place) (waitingOther count message)

private theorem menuWriteSelect_tidy (fits : setup.pageCount ≤ maxSize)
    (offered : setup.Offered page) (tidy : machine.Tidy setup) :
    (menuWriteSelect setup page machine).Tidy setup := by
  refine ⟨menuWriteSelect_bounded fits offered tidy.counted, ?_, ?_⟩
  · intro index inRange
    rw [(menuWriteSelect_covers setup page machine).2]
    · exact tidy.terminated index inRange
    · intro start length member
      unfold menuWriteSelectAccesses at member
      simp only [] at member
      split at member
      · cases member
      · cases List.mem_singleton.mp member
  · intro count message place
    rcases offered.cases fits with rfl | inRange
    · cases place
    · rw [(menuWriteSelect_inRange inRange machine).1] at place
      cases place

private theorem menuWriteMessage_tidy {message : List UInt8}
    (short : (strBytes message).length < setup.pageSize)
    (tidy : machine.Tidy setup) :
    MenuKeeps (Machine.Tidy setup) (ProcInfo.Counted setup)
      (menuWriteMessage message machine) := by
  have kept := menuWriteMessage_bounded message tidy.toBounded
  cases place : machine.menu with
  | message =>
      have names := tidy.place
      rw [place] at names
      simp only [menuWriteMessage, place] at kept ⊢
      refine kept.tidy ?_ (fun count text same => by cases same)
      intro index inRange
      rw [names.2]
      exact tidy.terminated.memcpy _ short inRange
  | messageAll =>
      simp only [menuWriteMessage, place] at kept ⊢
      refine kept.tidy tidy.terminated ?_
      intro count text same
      cases same
      exact short
  | _ =>
      simp only [menuWriteMessage, place] at kept ⊢
      exact kept.tidy tidy.terminated tidy.short

theorem tidy_each (fits : setup.pageCount ≤ maxSize) :
    KeepsEach setup (fun event => event.OffersPage setup ∧ event.ShortMessage setup)
      (Machine.Tidy setup) (ProcInfo.Counted setup) where
  read := by
    intro x page machine tidy admitted
    have kept := (bounded_each fits).read x page machine tidy.toBounded admitted.1
    rcases (admitted.1 page rfl).cases fits with rfl | inRange
    · rw [menuRead_all] at kept ⊢
      exact kept.tidy tidy.terminated (fun count message place => by cases place)
    · rw [menuRead_inRange inRange] at kept ⊢
      exact kept.tidy (pageRead_terminated tidy.terminated _ _ _)
        (pageRead_short (fun _ _ => Menu.noConfusion) (fun _ _ => Menu.noConfusion))
  write := by
    intro x page message machine tidy admitted
    exact menuWriteMessage_tidy admitted.2
      (menuWriteSelect_tidy fits (admitted.1 page rfl) tidy)
  select := by
    intro x page machine tidy admitted
    exact menuWriteSelect_tidy fits (admitted.1 page rfl) tidy
  enter := by
    intro x message machine tidy admitted
    exact menuWriteMessage_tidy admitted.2 tidy
  readAll := by
    intro count machine tidy place
    have kept := (bounded_each fits).readAll count machine tidy.toBounded place
    by_cases more : count < machine.tempData.pageCount
    · rw [menuReadAll_more more] at kept ⊢
      exact kept.tidy (pageRead_terminated tidy.terminated _ _ _)
        (pageRead_short (fun _ _ => Menu.noConfusion) (fun _ _ => Menu.noConfusion))
    · rw [menuReadAll_done more] at kept ⊢
      exact kept.tidy tidy.terminated (fun count message place => by cases place)
  writeAll := by
    intro count message machine tidy place
    have kept := (bounded_each fits).writeAll count message machine tidy.toBounded place
    have short := tidy.short count message place
    by_cases more : count < machine.tempData.pageCount
    · rw [menuWriteAll_more message more] at kept ⊢
      refine kept.tidy (fun index within => tidy.terminated.memcpy _ short within) ?_
      intro next text same
      cases same
      exact short
    · rw [menuWriteAll_done message more] at kept ⊢
      exact kept.tidy tidy.terminated (fun count message place => by cases place)
  receive := by
    intro index next received machine tidy waiting
    refine ⟨(bounded_each fits).receive index next received machine tidy.toBounded waiting,
      tidy.terminated, ?_⟩
    intro count message place
    change next = .writeAll count message at place
    subst place
    generalize machine.menu = menu at waiting
    cases menu <;> cases waiting
  serve := by
    intro recvData machine tidy counted
    exact ⟨(bounded_each fits).serve recvData machine tidy.toBounded counted,
      tidy.terminated, tidy.short⟩

end Last

/-- A condition on what is typed alone, but for the window of a split `w`. -/
def Typed (setup : Setup) (watched : Watched) (event : Event) : Prop :=
  event.OffersPage setup ∧ event.ShortMessage setup ∧
    ∀ x message, event = .enter x message → (watched.system.machine x).menu = .message →
      (watched.system.machine x).tempData.pageNum = watched.chosen x

theorem Typed.proper {setup : Setup} {watched : Watched} {event : Event}
    (state : watched.system.Fits (Machine.Tidy setup) (ProcInfo.Counted setup))
    (typed : Typed setup watched event) : Proper setup watched event := by
  obtain ⟨offers, short, window⟩ := typed
  cases event with
  | read x page => exact offers page rfl
  | select x page => exact offers page rfl
  | write x page message => exact ⟨offers page rfl, fun _single => Nat.le_of_lt short⟩
  | enter x message =>
      intro place
      exact .inr ⟨window x message rfl place, Nat.le_of_lt short⟩
  | iterate x =>
      intro count message place _more
      exact Nat.le_of_lt ((state.machines x).short count message place)
  | receive x => trivial
  | serve x =>
      intro recvData first _owned _asks
      have counted := state.structs x recvData (List.mem_of_mem_head? first)
      exact (state.machines x).terminated.endsWithin counted.names.1

/-- While every number is offered and every message shorter than a page, every step of the
two machines is proper. -/
theorem typed_run_proper {setup : Setup} (fits : setup.pageCount ≤ maxSize)
    {start final : Watched} {events : List Event} {outputs : List Output}
    (cold : Initial setup start.system)
    (run : Run (watchedStep setup) (Typed setup) start events outputs final) :
    Run (watchedStep setup) (Proper setup) start events outputs final ∧
      final.system.Fits (Machine.Tidy setup) (ProcInfo.Counted setup) := by
  induction run with
  | stop =>
      refine ⟨.stop, ?_, ?_⟩
      · intro x
        refine ⟨⟨?_, cold.counted x⟩, fun page _inRange => cold.zero x _, ?_⟩
        · rw [cold.prompt x]
          trivial
        · intro count message place
          rw [cold.prompt x] at place
          cases place
      · intro x data member
        rw [cold.inboxEmpty x] at member
        cases member
  | extend _prior typed accepted ih =>
      obtain ⟨proper, state⟩ := ih
      exact ⟨proper.extend (typed.proper state) accepted,
        state.step (tidy_each fits) ⟨typed.1, typed.2.1⟩ (watchedStep_system accepted)⟩

end LKP.Dsm
