import LKP.Library.TransitionRun

/-
Two step functions on one kind of state, run on the same events from the same state.

They go side by side when they have reached the same state after every event.  If it is
known on which steps they agree, that is decided by the events and the states of one of
them.
-/

set_option autoImplicit false

namespace LKP.LockStep

open TransitionRun

variable {State Event Output Other : Type}

def always (_ : State) (_ : Event) : Prop := True

/-- Both accept the events, and are in one state after every part of them. -/
def SideBySide (left : StepFunction State Event Output) (right : StepFunction State Event Other)
    (start : State) (events : List Event) : Prop :=
  ∀ part, part <+: events → ∃ final shown other,
    Run left always start part shown final ∧ Run right always start part other final

def StepsAlike (left : StepFunction State Event Output) (right : StepFunction State Event Other)
    (state : State) (event : Event) : Prop :=
  ∃ after shown other, left state event = some (after, shown) ∧
    right state event = some (after, other)

variable {left : StepFunction State Event Output} {right : StepFunction State Event Other}
variable {allowed : State → Event → Prop} {start before : State} {events : List Event}
variable {event : Event} {shown : List Output}

theorem unsnoc {final : State} (run : Run left allowed start (events ++ [event]) shown final) :
    ∃ before earlier last, Run left allowed start events earlier before ∧
      allowed before event ∧ left before event = some (final, last) := by
  generalize whole : events ++ [event] = all at run
  cases run with
  | stop => exact absurd whole (by simp)
  | @extend past earlier before after latest last prior admitted accepted =>
      obtain ⟨same, single⟩ := List.append_inj' whole rfl
      cases single
      rw [same]
      exact ⟨before, earlier, last, prior, admitted, accepted⟩

theorem unique {again : List Output} {one other : State} {otherAllowed : State → Event → Prop}
    (run : Run left allowed start events shown one)
    (secondRun : Run left otherAllowed start events again other) : one = other := by
  induction events using List.reverseRecOn generalizing shown again one other with
  | nil => exact run.nil_inv.2.trans secondRun.nil_inv.2.symm
  | append_singleton events event ih =>
      obtain ⟨before, _, _, prior, _, accepted⟩ := unsnoc run
      obtain ⟨otherBefore, _, _, otherPrior, _, otherAccepted⟩ := unsnoc secondRun
      rw [ih prior otherPrior, otherAccepted] at accepted
      cases accepted
      rfl

theorem stepsAlike_iff {one other : State} {last : List Output} {otherLast : List Other}
    (leftStep : left before event = some (one, last))
    (rightStep : right before event = some (other, otherLast)) :
    StepsAlike left right before event ↔ one = other := by
  constructor
  · intro alike
    obtain ⟨after, _, _, leftAgain, rightAgain⟩ := alike
    rw [leftStep] at leftAgain
    rw [rightStep] at rightAgain
    cases leftAgain
    cases rightAgain
    rfl
  · intro same
    exact ⟨one, last, otherLast, leftStep, same ▸ rightStep⟩

theorem SideBySide.shorter (together : SideBySide left right start (events ++ [event])) :
    SideBySide left right start events :=
  fun part within => together part (within.trans (List.prefix_append _ _))

/-- Runs that go side by side have made the last step alike. -/
theorem SideBySide.last (together : SideBySide left right start (events ++ [event]))
    (run : Run left allowed start events shown before) : StepsAlike left right before event := by
  obtain ⟨final, _, _, leftRun, rightRun⟩ := together _ (List.prefix_refl _)
  obtain ⟨leftBefore, _, last, leftPrior, _, leftAccepted⟩ := unsnoc leftRun
  obtain ⟨rightBefore, _, otherLast, rightPrior, _, rightAccepted⟩ := unsnoc rightRun
  obtain ⟨middle, _, _, leftEarlier, rightEarlier⟩ :=
    together.shorter _ (List.prefix_refl _)
  have leftSame : leftBefore = before := unique leftPrior run
  have rightSame : rightBefore = before :=
    (unique rightPrior rightEarlier).trans (unique leftEarlier run)
  rw [leftSame] at leftAccepted
  rw [rightSame] at rightAccepted
  exact ⟨final, last, otherLast, leftAccepted, rightAccepted⟩

theorem SideBySide.extend (together : SideBySide left right start events)
    (run : Run left allowed start events shown before)
    (alike : StepsAlike left right before event) :
    SideBySide left right start (events ++ [event]) := by
  obtain ⟨after, _, _, leftStep, rightStep⟩ := alike
  obtain ⟨middle, _, _, leftRun, rightRun⟩ := together _ (List.prefix_refl _)
  have same : middle = before := unique leftRun run
  rw [same] at leftRun rightRun
  intro part within
  rcases List.prefix_concat_iff.mp within with whole | shorter
  · rw [whole]
    exact ⟨after, _, _, leftRun.extend trivial leftStep, rightRun.extend trivial rightStep⟩
  · exact together part shorter

/-- Where it is known which steps are alike, the two go side by side exactly through the
runs of those steps. -/
theorem sideBySide_iff (inv : State → Prop) (initially : inv start)
    (preserved : ∀ before event after shown, inv before →
      left before event = some (after, shown) → inv after)
    (alike : ∀ state event, inv state →
      (StepsAlike left right state event ↔ allowed state event)) :
    SideBySide left right start events ↔
      ∃ shown final, Run left allowed start events shown final := by
  have invariant : ∀ past shown state, Run left allowed start past shown state → inv state :=
    fun _ _ _ run => run.invariant inv initially
      (fun before event after shown held _ => preserved before event after shown held)
  induction events using List.reverseRecOn with
  | nil =>
      constructor
      · exact fun _ => ⟨[], start, .stop⟩
      · intro _ part within
        rw [List.prefix_nil.mp within]
        exact ⟨start, [], [], .stop, .stop⟩
  | append_singleton events event ih =>
      constructor
      · intro together
        obtain ⟨shown, before, run⟩ := ih.mp together.shorter
        have steps := together.last run
        have admitted := (alike before event (invariant _ _ _ run)).mp steps
        obtain ⟨after, last, _, accepted, _⟩ := steps
        exact ⟨_, after, run.extend admitted accepted⟩
      · intro run
        obtain ⟨_, _, run⟩ := run
        obtain ⟨before, earlier, _, prior, admitted, _⟩ := unsnoc run
        have together := ih.mpr ⟨earlier, before, prior⟩
        exact together.extend prior ((alike before event (invariant _ _ _ prior)).mpr admitted)

end LKP.LockStep
