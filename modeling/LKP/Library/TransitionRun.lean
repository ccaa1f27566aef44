import Mathlib

/-
Finite runs of a partial step function with visible outputs.

A step function refuses an event or answers with the next state and the outputs
of that step.  A run is built from its end, so that a history-dependent
invariant sees the events and outputs so far.  Every step also meets a
condition on the state before it; the condition is how an environment or a
schedule is restricted.
-/

set_option autoImplicit false

namespace LKP.TransitionRun

variable {State Event Output : Type}

/-- A refused event is `none`; an accepted one gives the next state and its outputs. -/
abbrev StepFunction (State Event Output : Type) :=
  State → Event → Option (State × List Output)

/-- The runs from `start` in which every step is accepted and meets `allowed`. -/
inductive Run (step : StepFunction State Event Output) (allowed : State → Event → Prop)
    (start : State) : List Event → List Output → State → Prop
  | stop : Run step allowed start [] [] start
  | extend {events : List Event} {outputs : List Output} {before after : State}
      {event : Event} {shown : List Output} :
      Run step allowed start events outputs before → allowed before event →
      step before event = some (after, shown) →
      Run step allowed start (events ++ [event]) (outputs ++ shown) after

variable {step : StepFunction State Event Output} {allowed stricter : State → Event → Prop}
variable {start middle final : State} {events later : List Event}
variable {outputs laterOutputs : List Output}

theorem Run.one {event : Event} {shown : List Output} (admitted : allowed start event)
    (accepted : step start event = some (final, shown)) :
    Run step allowed start [event] shown final :=
  Run.extend .stop admitted accepted

theorem Run.append (first : Run step allowed start events outputs middle)
    (second : Run step allowed middle later laterOutputs final) :
    Run step allowed start (events ++ later) (outputs ++ laterOutputs) final := by
  induction second with
  | stop => simpa only [List.append_nil] using first
  | extend _prior admitted accepted ih =>
      rw [← List.append_assoc, ← List.append_assoc]
      exact Run.extend ih admitted accepted

theorem Run.weaken (run : Run step stricter start events outputs final)
    (weaker : ∀ state event, stricter state event → allowed state event) :
    Run step allowed start events outputs final := by
  induction run with
  | stop => exact .stop
  | extend _prior admitted accepted ih => exact .extend ih (weaker _ _ admitted) accepted

/-- A condition on events alone that every event of a run meets may be put on its steps. -/
theorem Run.of_events (admits : Event → Prop)
    (run : Run step allowed start events outputs final)
    (each : ∀ event ∈ events, admits event) :
    Run step (fun _ event => admits event) start events outputs final := by
  induction run with
  | stop => exact .stop
  | extend _prior _admitted accepted ih =>
      have earlier := ih (fun event member => each event (List.mem_append_left _ member))
      exact .extend earlier (each _ (List.mem_append_right _ List.mem_cons_self)) accepted

/-- The induction rule for invariants that mention the history. -/
theorem Run.history_invariant (inv : List Event → List Output → State → Prop)
    (run : Run step allowed start events outputs final) (initially : inv [] [] start)
    (preserved : ∀ past shownBefore before event after shown,
      inv past shownBefore before → allowed before event →
      step before event = some (after, shown) →
      inv (past ++ [event]) (shownBefore ++ shown) after) :
    inv events outputs final := by
  induction run with
  | stop => exact initially
  | extend _prior admitted accepted ih => exact preserved _ _ _ _ _ _ ih admitted accepted

/-- The induction rule for invariants of the state alone. -/
theorem Run.invariant (inv : State → Prop) (run : Run step allowed start events outputs final)
    (initially : inv start)
    (preserved : ∀ before event after shown, inv before → allowed before event →
      step before event = some (after, shown) → inv after) : inv final :=
  run.history_invariant (fun _ _ state => inv state) initially
    (fun _ _ before event after shown => preserved before event after shown)

/-- Keep the events that `keep` selects in the state each one meets. -/
def restrict (step : StepFunction State Event Output) (keep : State → Event → Bool) :
    State → List Event → List Event
  | _, [] => []
  | state, event :: rest =>
      match step state event with
      | none => []
      | some (next, _) =>
          if keep state event then event :: restrict step keep next rest
          else restrict step keep next rest

theorem Run.nil_inv (run : Run step allowed start [] outputs final) :
    outputs = [] ∧ final = start := by
  generalize whole : ([] : List Event) = events at run
  cases run with
  | stop => exact ⟨rfl, rfl⟩
  | extend _prior _admitted _accepted => exact absurd whole (by simp)

theorem Run.uncons {event : Event} (run : Run step allowed start (event :: later) outputs final) :
    ∃ next shown remaining, allowed start event ∧ step start event = some (next, shown) ∧
      Run step allowed next later remaining final ∧ outputs = shown ++ remaining := by
  generalize whole : event :: later = events at run
  induction run generalizing later with
  | stop => cases whole
  | @extend events outputs before after last shown prior admitted accepted ih =>
      cases events with
      | nil =>
          obtain ⟨rfl, rfl⟩ := List.cons.inj whole
          obtain ⟨rfl, rfl⟩ := prior.nil_inv
          exact ⟨after, shown, [], admitted, accepted, .stop, by simp⟩
      | cons head tail =>
          obtain ⟨rfl, rfl⟩ := List.cons.inj whole
          obtain ⟨next, first, remaining, admittedFirst, acceptedFirst, rest, rfl⟩ := ih rfl
          exact ⟨next, first, remaining ++ shown, admittedFirst, acceptedFirst,
            .extend rest admitted accepted, List.append_assoc ..⟩

/-- The events decide what is shown. -/
theorem Run.sameOutputs {other : State} (run : Run step allowed start events outputs final)
    (again : Run step stricter start events laterOutputs other) : outputs = laterOutputs := by
  induction events generalizing start outputs laterOutputs with
  | nil => exact run.nil_inv.1.trans again.nil_inv.1.symm
  | cons event rest ih =>
      obtain ⟨next, shown, remaining, _, accepted, continued, rfl⟩ := run.uncons
      obtain ⟨otherNext, otherShown, otherRemaining, _, otherAccepted, otherContinued, rfl⟩ :=
        again.uncons
      rw [accepted] at otherAccepted
      cases otherAccepted
      rw [ih continued otherContinued]

/-- Restriction extends with the run it is taken of. -/
theorem Run.restrict_append (keep : State → Event → Bool)
    (run : Run step allowed start events outputs final) {event : Event} {next : State}
    {shown : List Output} (accepted : step final event = some (next, shown)) :
    restrict step keep start (events ++ [event]) =
      restrict step keep start events ++ if keep final event then [event] else [] := by
  induction events generalizing start outputs with
  | nil =>
      obtain ⟨rfl, rfl⟩ := run.nil_inv
      simp only [List.nil_append, restrict, accepted]
  | cons head tail ih =>
      obtain ⟨middle, first, remaining, _admitted, acceptedFirst, rest, rfl⟩ := run.uncons
      simp only [List.cons_append, restrict, acceptedFirst]
      split
      · rw [ih rest, List.cons_append]
      · exact ih rest

def execute (step : StepFunction State Event Output) (check : State → Event → Bool) :
    State → List Event → Option (State × List Output)
  | state, [] => some (state, [])
  | state, event :: rest =>
      if check state event then
        match step state event with
        | none => none
        | some (next, shown) =>
            match execute step check next rest with
            | none => none
            | some (last, remaining) => some (last, shown ++ remaining)
      else none

theorem Run.of_execute (check : State → Event → Bool)
    (executed : execute step check start events = some (final, outputs)) :
    Run step (fun state event => check state event = true) start events outputs final := by
  induction events generalizing start outputs with
  | nil =>
      simp only [execute, Option.some.injEq, Prod.mk.injEq] at executed
      obtain ⟨rfl, rfl⟩ := executed
      exact .stop
  | cons event rest ih =>
      simp only [execute] at executed
      split at executed
      · rename_i admitted
        split at executed
        · cases executed
        · rename_i next shown accepted
          split at executed
          · cases executed
          · rename_i last remaining continued
            cases executed
            have first : Run step (fun state event => check state event = true) start
                [event] shown next := Run.one admitted accepted
            exact first.append (ih continued)
      · cases executed

/-- The run of an event list whose execution is known to succeed. -/
theorem Run.of_executes (check : State → Event → Bool)
    (succeeds : (execute step check start events).isSome = true) :
    Run step (fun state event => check state event = true) start events
      ((execute step check start events).get succeeds).2
      ((execute step check start events).get succeeds).1 := by
  apply Run.of_execute
  exact (Option.some_get succeeds).symm

/-- Which of two kinds of event an event list has first: `some true` for the first kind,
`some false` for the second, `none` if it has neither. -/
def firstKind (one other : Event → Bool) (events : List Event) : Option Bool :=
  (events.find? (fun event => one event || other event)).map one

theorem firstKind_append (one other : Event → Bool) (events : List Event) (event : Event) :
    firstKind one other (events ++ [event]) =
      (firstKind one other events).or
        (if one event then some true else if other event then some false else none) := by
  unfold firstKind
  rw [List.find?_append, Option.map_or]
  congr 1
  cases first : one event with
  | true => simp [first]
  | false =>
      cases second : other event with
      | true => simp [first, second]
      | false => simp [first, second]

/-- A run is what executing its events gives: the step function leaves no choice. -/
theorem Run.executes (run : Run step allowed start events outputs final) :
    execute step (fun _ _ => true) start events = some (final, outputs) := by
  induction events generalizing start outputs with
  | nil =>
      obtain ⟨rfl, rfl⟩ := run.nil_inv
      rfl
  | cons event rest ih =>
      obtain ⟨next, shown, remaining, _admitted, accepted, continued, rfl⟩ := run.uncons
      simp only [execute, accepted, ih continued, if_true]

/-- The descent rule: while the rank is positive some admitted event keeps the invariant
and lowers it, so a run leads to rank zero. -/
theorem Run.descends (inv : State → Prop) (rank : State → Nat)
    (lowers : ∀ state, inv state → 0 < rank state → ∃ event next shown,
      allowed state event ∧ step state event = some (next, shown) ∧ inv next ∧
        rank next < rank state)
    (initially : inv start) :
    ∃ events outputs final, Run step allowed start events outputs final ∧ inv final ∧
      rank final = 0 := by
  induction bound : rank start using Nat.strongRecOn generalizing start with
  | ind bound ih =>
      rcases Nat.eq_zero_or_pos (rank start) with zero | positive
      · exact ⟨[], [], start, .stop, initially, zero⟩
      · obtain ⟨event, next, shown, admitted, accepted, kept, lower⟩ :=
          lowers start initially positive
        obtain ⟨later, remaining, final, run, holds, zero⟩ :=
          ih (rank next) (bound ▸ lower) kept rfl
        exact ⟨event :: later, shown ++ remaining, final,
          (Run.one admitted accepted).append run, holds, zero⟩

/-- The simulation rule: if every step from a state has a step from each related state with
the same event and the same outputs to related states, so has every run. -/
theorem Run.simulated {Other : Type} {otherStep : StepFunction Other Event Output}
    {otherAllowed : Other → Event → Prop} {otherStart : Other} (rel : State → Other → Prop)
    (moves : ∀ state other event after shown, rel state other → allowed state event →
      step state event = some (after, shown) → otherAllowed other event ∧
        ∃ next, otherStep other event = some (next, shown) ∧ rel after next)
    (run : Run step allowed start events outputs final) (initially : rel start otherStart) :
    ∃ otherFinal, Run otherStep otherAllowed otherStart events outputs otherFinal ∧
      rel final otherFinal := by
  induction run with
  | stop => exact ⟨otherStart, .stop, initially⟩
  | extend _prior admitted accepted ih =>
      obtain ⟨middle, earlier, related⟩ := ih
      obtain ⟨admittedOther, next, moved, relatedNext⟩ :=
        moves _ _ _ _ _ related admitted accepted
      exact ⟨next, .extend earlier admittedOther moved, relatedNext⟩

/-! ### What can be reached -/

def Reaches (step : StepFunction State Event Output) (allowed : State → Event → Prop)
    (start : State) (good : State → Prop) : Prop :=
  ∃ events outputs final, Run step allowed start events outputs final ∧ good final

section Reaching

variable {good better : State → Prop}

theorem Reaches.here (already : good start) : Reaches step allowed start good :=
  ⟨[], [], start, .stop, already⟩

theorem Reaches.trans (first : Reaches step allowed start good)
    (second : ∀ middle, good middle → Reaches step allowed middle better) :
    Reaches step allowed start better := by
  obtain ⟨events, outputs, middle, run, holds⟩ := first
  obtain ⟨later, more, final, rest, better⟩ := second middle holds
  exact ⟨events ++ later, outputs ++ more, final, run.append rest, better⟩

theorem Reaches.next {event : Event} {shown : List Output}
    (admitted : allowed start event) (accepted : step start event = some (middle, shown))
    (rest : Reaches step allowed middle good) : Reaches step allowed start good := by
  obtain ⟨later, more, final, run, holds⟩ := rest
  exact ⟨event :: later, shown ++ more, final, (Run.one admitted accepted).append run, holds⟩

/-- What no run from here leads out of is not reached. -/
theorem Reaches.not_of_invariant (trapped : State → Prop) (initially : trapped start)
    (stays : ∀ before event after shown, trapped before → allowed before event →
      step before event = some (after, shown) → trapped after)
    (bad : ∀ state, trapped state → ¬ good state) : ¬ Reaches step allowed start good := by
  intro reached
  obtain ⟨events, outputs, final, run, holds⟩ := reached
  exact bad final (run.invariant trapped initially stays) holds

end Reaching

end LKP.TransitionRun
