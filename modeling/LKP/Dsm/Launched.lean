import LKP.Dsm.ColdStart
import LKP.Dsm.PagedTraces
import LKP.Dsm.Terminals

/-
From the launch of the two processes to what their terminals show.

Start-up leaves the two machines where the protocol starts from, on regions of which no page
has come.  From there on the faults cannot be told from zeroed regions, and overlapping
commands not from a single memory.
-/

set_option autoImplicit false

namespace LKP.Dsm

open TransitionRun CBuffer

section Typed

variable {setup : Setup} {s t : System} {event : Event}

/-- A single command with a text names a page of the region and fits it. -/
theorem CaughtUpText.fitting (typed : CaughtUpText setup s event) : event.Fitting setup := by
  obtain ⟨single, _, text⟩ := typed
  have offered : ∀ page, setup.InRange page → setup.Offered page := by
    intro page inRange
    have lower := inRange.1
    exact ⟨by omega, inRange.2.1⟩
  cases event with
  | read x page => exact ⟨fun number same => Option.some.inj same ▸ offered page single, trivial⟩
  | write x page message =>
      refine ⟨fun number same => Option.some.inj same ▸ offered page single, ?_⟩
      exact Nat.lt_of_le_of_lt (strBytes_length_le message) text.2.2
  | receive x => exact ⟨fun number none => absurd none.symm (Option.some_ne_none number), trivial⟩
  | serve x => exact ⟨fun number none => absurd none.symm (Option.some_ne_none number), trivial⟩
  | select x page => exact single.elim
  | enter x message => exact single.elim
  | iterate x => exact single.elim

/-- Only what is in flight decides whether a command is in time. -/
theorem CaughtUpText.of_inbox (typed : CaughtUpText setup s event) (same : s.inbox = t.inbox) :
    CaughtUpText setup t event := by
  obtain ⟨single, caughtUp, text⟩ := typed
  refine ⟨single, ?_, text⟩
  cases event with
  | read x page => exact ⟨caughtUp.1, same ▸ caughtUp.2⟩
  | write x page message => exact ⟨caughtUp.1, same ▸ caughtUp.2⟩
  | receive x => trivial
  | serve x => trivial
  | select x page => exact single.elim
  | enter x message => exact single.elim
  | iterate x => exact single.elim

theorem Event.Loop.fitting (loop : event.Loop) : event.Fitting setup := by
  cases event with
  | iterate x => exact ⟨fun number none => absurd none.symm (Option.some_ne_none number), trivial⟩
  | receive x => exact ⟨fun number none => absurd none.symm (Option.some_ne_none number), trivial⟩
  | serve x => exact ⟨fun number none => absurd none.symm (Option.some_ne_none number), trivial⟩
  | read x page => exact loop.elim
  | write x page message => exact loop.elim
  | select x page => exact loop.elim
  | enter x message => exact loop.elim

end Typed

section Launch

variable {start opened : Pair} {actions : List Action} {marks : List (Host × Mark)} {x : Host}
variable {setup : Setup} {base : Host → Nat} {recvMessage : Host → Buffer}
variable {paged final : PagedSystem} {events : List Event} {outputs : List Output}

/-- After an orderly start-up and whatever commands were entered in time, with every page still
brought by its fault: each terminal has shown a beginning of what one memory shows for these
commands, and the receive loops and blocked reads alone lead to where it has shown it all. -/
theorem launched_terminals_show (unstarted : Unstarted start)
    (opening : Run startStep (Opens x.peer) start actions marks opened)
    (first : (opened.process x).mchNum = 1) (second : (opened.process x.peer).mchNum = 2)
    (menus : opened.AtMenus) (count : setup.pageCount = (opened.process x).tempData.pageCount)
    (mapped : ∀ z, setup.MappedAt (base z))
    (unfilled : paged.Unfilled setup (opened.system (fun _ _ => 0) recvMessage))
    (run : Run (pagedStep setup base) (fun s event => CaughtUpText setup s.system event) paged
      events outputs final) :
    ∃ loops more settled,
      Run (pagedStep setup base) (fun _ event => event.Loop) final loops more settled ∧
      ∀ z, (settled.system.machine z).menu = .prompt ∧
        shownTo z (displayed outputs) <+:
          shownTo z (showings setup (.blank recvMessage) events) ∧
        shownTo z (displayed (outputs ++ more)) =
          shownTo z (showings setup (.blank recvMessage) events) := by
  have initial : Initial setup (opened.system (fun _ _ => 0) recvMessage) :=
    ⟨startUp_cold unstarted opening first second menus count _ _, fun _ _ => rfl⟩
  have begins : InStep setup paged (opened.system (fun _ _ => 0) recvMessage) :=
    ⟨unfilled.standsIn initial, initial.tidy⟩
  have back : ∀ (paged : PagedSystem) (t : System) (event : Event) (after : PagedSystem)
      (lines : List Output), InStep setup paged t → CaughtUpText setup paged.system event →
      pagedStep setup base paged event = some (after, lines) → CaughtUpText setup t event ∧
        ∃ next, step setup t event = some (next, lines) ∧ InStep setup after next :=
    fun _ _ _ _ _ inStep typed accepted =>
      ⟨typed.of_inbox inStep.1.same.inbox, inStep.back mapped typed.fitting accepted⟩
  obtain ⟨plain, plainRun, inStep⟩ := run.simulated (InStep setup) back begins
  obtain ⟨loops, more, last, continued, settled, shown⟩ := terminals_catch_up initial plainRun
  have forward : ∀ (t : System) (paged : PagedSystem) (event : Event) (next : System)
      (lines : List Output), InStep setup paged t → event.Loop →
      step setup t event = some (next, lines) → event.Loop ∧
        ∃ after, pagedStep setup base paged event = some (after, lines) ∧
          InStep setup after next :=
    fun _ _ _ _ _ inStep loop accepted => ⟨loop, inStep.step mapped loop.fitting accepted⟩
  obtain ⟨pagedLast, pagedContinued, stands⟩ :=
    continued.simulated (fun t paged => InStep setup paged t) forward inStep
  refine ⟨loops, more, pagedLast, pagedContinued, ?_⟩
  intro z
  refine ⟨?_, ?_, shown z⟩
  · rw [stands.1.same.menu]
    exact (settled z).1
  · obtain ⟨_, ready, busy⟩ := terminals_show initial plainRun z
    by_cases prompt : (plain.machine z).menu = .prompt
    · exact (ready prompt) ▸ List.prefix_refl _
    · obtain ⟨missing, same⟩ := busy prompt
      exact ⟨[missing], same⟩

end Launch

/-! ### One page -/

def onePage : Setup := { twoPages with pageCount := 1 }

def openedPages : PagedSystem where
  system := ((launch (Opens .two) bothMenus).get bothMenus_run).1.system (fun _ _ => 0)
    (fun _ _ => 0)
  region := fun _ => ⟨fun _ => false, fun _ => 120, fun _ => 0⟩

private theorem openedPages_unfilled : openedPages.Unfilled onePage
    (((launch (Opens .two) bothMenus).get bothMenus_run).1.system (fun _ _ => 0)
      (fun _ _ => 0)) where
  same := ⟨fun _ => ⟨fun _ => 0, rfl⟩, rfl, rfl⟩
  missing _ _ := rfl
  blank _ _ _ _ := rfl

def firstWords : List Event := [.write .one 0 [104, 105], .serve .two, .read .two 0, .serve .one]

private theorem firstWords_run :
    (execute (pagedStep onePage (fun _ => 65536))
      (fun s event => decide (CaughtUpText onePage s.system event)) openedPages
      firstWords).isSome = true := by
  decide +kernel

theorem launched_terminals_show_firstWords :
    ∃ outputs final loops more settled,
      Run (pagedStep onePage (fun _ => 65536))
        (fun s event => CaughtUpText onePage s.system event) openedPages firstWords outputs
        final ∧
      Run (pagedStep onePage (fun _ => 65536)) (fun _ event => event.Loop) final loops more
        settled ∧
      ∀ z, (settled.system.machine z).menu = .prompt ∧
        shownTo z (displayed outputs) <+:
          shownTo z (showings onePage (.blank (fun _ _ => 0)) firstWords) ∧
        shownTo z (displayed (outputs ++ more)) =
          shownTo z (showings onePage (.blank (fun _ _ => 0)) firstWords) := by
  have run : Run (pagedStep onePage (fun _ => 65536))
      (fun s event => CaughtUpText onePage s.system event) openedPages firstWords _ _ :=
    (Run.of_executes _ firstWords_run).weaken (fun _ _ checked => of_decide_eq_true checked)
  have mapped : onePage.MappedAt 65536 := ⟨rfl, by decide, by decide, by decide⟩
  obtain ⟨loops, more, settled, continued, shown⟩ := @launched_terminals_show _ _ _ _ .one _ _ _ _
    _ _ _ zeroPair_unstarted (launch_run _ bothMenus bothMenus_run) (by decide) (by decide)
    bothMenus_atMenus (by decide) (fun _ => mapped) openedPages_unfilled run
  exact ⟨_, _, loops, more, settled, run, continued, shown⟩

end LKP.Dsm
