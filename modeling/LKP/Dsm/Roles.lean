import LKP.Dsm.StartUp

/-
Which roles start-up assigns.

A process becomes machine 2 exactly when its first `connect` comes after the other
server's `listen`.  Nothing relates the two processes' answers to that question, so
the roles are distinct exactly when one of the two first connects was heard and the
other was not.
-/

set_option autoImplicit false

namespace LKP.Dsm

open TransitionRun

def Action.listens (x : Host) : Action → Bool
  | .server z .listen => decide (z = x)
  | _ => false

/-- The first `connect` of a client; a later one is a `retry`. -/
def ClientAction.asks : ClientAction → Bool
  | .connect => true
  | _ => false

def Action.connects (x : Host) : Action → Bool
  | .client z action => decide (z = x) && action.asks
  | _ => false

/-- Whether the other server's `listen` or the client's first `connect` came first. -/
def verdict (x : Host) (actions : List Action) : Option Bool :=
  firstKind (Action.listens x.peer) (Action.connects x) actions

def HeardFirst (x : Host) (actions : List Action) : Prop := verdict x actions = some true

instance (x : Host) (actions : List Action) : Decidable (HeardFirst x actions) :=
  inferInstanceAs (Decidable (_ = _))

def ClientPoint.Joined (point : ClientPoint) : Prop :=
  point ≠ .start ∧ point ≠ .connected ∧ point ≠ .refused ∧ point ≠ .retrying

instance (point : ClientPoint) : Decidable point.Joined :=
  inferInstanceAs (Decidable (_ ∧ _ ∧ _ ∧ _))

def Standing (verdict : Option Bool) (listening : Bool) (process : Process) : Prop :=
  match process.client with
  | .start => verdict = if listening then some true else none
  | .connected => verdict = some true
  | .refused => verdict = some false
  | .retrying => verdict = some false ∧ process.mchNum = 1
  | _ =>
      (verdict = some true ∧ process.mchNum = 2) ∨ (verdict = some false ∧ process.mchNum = 1)

theorem standing_joined {verdict : Option Bool} {listening : Bool} {process : Process}
    (joined : process.client.Joined) :
    Standing verdict listening process ↔
      (verdict = some true ∧ process.mchNum = 2) ∨
        (verdict = some false ∧ process.mchNum = 1) := by
  obtain ⟨notStart, notConnected, notRefused, notRetrying⟩ := joined
  unfold Standing
  split
  · rename_i here
    exact absurd here notStart
  · rename_i here
    exact absurd here notConnected
  · rename_i here
    exact absurd here notRefused
  · rename_i here
    exact absurd here notRetrying
  · exact Iff.rfl

section Steps

variable {before : Option Bool} {connected listening : Bool} {process after : Process}
variable {marks : List Mark}

theorem ServerMove.listens {action : ServerAction}
    (move : ServerMove connected process action after marks) :
    (action = .listen ∧ process.listens = false ∧ after.listens = true) ∨
      (action ≠ .listen ∧ after.listens = process.listens) := by
  cases move with
  | listen here => exact .inl ⟨rfl, by simp [Process.listens, here], by simp [Process.listens]⟩
  | bind here => exact .inr ⟨by simp, by simp [Process.listens, here]⟩
  | accept here _connected => exact .inr ⟨by simp, by simp [Process.listens, here]⟩
  | awaitHandshake here _role => exact .inr ⟨by simp, by simp [Process.listens, here]⟩
  | skipHandshake here _role => exact .inr ⟨by simp, by simp [Process.listens, here]⟩
  | takeHandshake here recvData => exact .inr ⟨by simp, by simp [Process.listens, here]⟩
  | takeMessage here recvData listMSI => exact .inr ⟨by simp, by simp [Process.listens, here]⟩
  | map here base _mapped => exact .inr ⟨by simp, by simp [Process.listens, here]⟩
  | initialisePage count here _more => exact .inr ⟨by simp, by simp [Process.listens, here]⟩
  | initialised count here _done => exact .inr ⟨by simp, by simp [Process.listens, here]⟩
  | create here uffd => exact .inr ⟨by simp, by simp [Process.listens, here]⟩
  | register here => exact .inr ⟨by simp, by simp [Process.listens, here]⟩

theorem ClientMove.listens {action : ClientAction}
    (move : ClientMove listening process action after marks) :
    after.listens = process.listens := by
  cases move with
  | _ => rfl

theorem ClientMove.joined {action : ClientAction}
    (move : ClientMove listening process action after marks) (joined : process.client.Joined) :
    after.client.Joined ∧ after.mchNum = process.mchNum ∧ action.asks = false := by
  obtain ⟨notStart, notConnected, notRefused, notRetrying⟩ := joined
  cases move with
  | connect here _heard => exact absurd here notStart
  | refused here _unheard => exact absurd here notStart
  | second here => exact absurd here notConnected
  | first here => exact absurd here notRefused
  | reached here => exact absurd here notRetrying
  | retry here => exact absurd here notRetrying
  | command here data => exact ⟨⟨notStart, notConnected, notRefused, notRetrying⟩, rfl, rfl⟩
  | _ => exact ⟨by simp [ClientPoint.Joined], rfl, rfl⟩

theorem Standing.client {action : ClientAction} (standing : Standing before listening process)
    (move : ClientMove listening process action after marks) :
    Standing (before.or (if action.asks then some false else none)) listening after := by
  by_cases joined : process.client.Joined
  · obtain ⟨stays, role, other⟩ := move.joined joined
    rw [standing_joined joined] at standing
    rw [standing_joined stays, role, other]
    simp only [Bool.false_eq_true, if_false, Option.or_none]
    exact standing
  · cases move with
    | connect here heard =>
        simp only [Standing, here, heard, if_true] at standing
        rw [standing]
        rfl
    | refused here unheard =>
        simp only [Standing, here, unheard] at standing
        rw [standing]
        rfl
    | second here =>
        simp only [Standing, here] at standing
        rw [standing]
        exact .inl ⟨rfl, rfl⟩
    | first here =>
        simp only [Standing, here] at standing
        rw [standing]
        exact ⟨rfl, rfl⟩
    | reached here =>
        simp only [Standing, here] at standing
        rw [standing.1]
        exact .inr ⟨rfl, standing.2⟩
    | retry here =>
        simp only [Standing, here] at standing
        rw [standing.1]
        exact ⟨rfl, standing.2⟩
    | ask here _role => exact absurd (by simp [ClientPoint.Joined, here]) joined
    | wait here _role => exact absurd (by simp [ClientPoint.Joined, here]) joined
    | enterCount here count => exact absurd (by simp [ClientPoint.Joined, here]) joined
    | map here base => exact absurd (by simp [ClientPoint.Joined, here]) joined
    | initialisePage count here => exact absurd (by simp [ClientPoint.Joined, here]) joined
    | initialised count here => exact absurd (by simp [ClientPoint.Joined, here]) joined
    | send here => exact absurd (by simp [ClientPoint.Joined, here]) joined
    | create here uffd => exact absurd (by simp [ClientPoint.Joined, here]) joined
    | register here => exact absurd (by simp [ClientPoint.Joined, here]) joined
    | unmapped here _null => exact absurd (by simp [ClientPoint.Joined, here]) joined
    | mapped here _mapped => exact absurd (by simp [ClientPoint.Joined, here]) joined
    | startHandler here => exact absurd (by simp [ClientPoint.Joined, here]) joined
    | command here data => exact absurd (by simp [ClientPoint.Joined, here]) joined

/-- The other server's `listen` settles the question for a client that has not asked. -/
theorem Standing.listen (standing : Standing before false process) :
    Standing (before.or (some true)) true process := by
  unfold Standing at standing ⊢
  split at standing
  · rw [standing]
    rfl
  · rw [standing]
    rfl
  · rw [standing]
    rfl
  · rw [standing.1]
    exact ⟨rfl, standing.2⟩
  · rcases standing with second | first
    · rw [second.1]
      exact .inl ⟨rfl, second.2⟩
    · rw [first.1]
      exact .inr ⟨rfl, first.2⟩

theorem Standing.of_same (standing : Standing before listening process)
    (client : after.client = process.client) (role : after.mchNum = process.mchNum) :
    Standing before listening after := by
  unfold Standing at standing ⊢
  rw [client, role]
  exact standing

end Steps

def Stands (actions : List Action) (s : Pair) : Prop :=
  ∀ x, Standing (verdict x actions) (s.process x.peer).listens (s.process x)

theorem Unstarted.stands {s : Pair} (unstarted : Unstarted s) : Stands [] s := by
  intro x
  simp only [Standing, unstarted.client x, Process.listens, unstarted.server x.peer]
  rfl

theorem verdict_append (x : Host) (actions : List Action) (action : Action) :
    verdict x (actions ++ [action]) =
      (verdict x actions).or
        (if action.listens x.peer then some true
          else if action.connects x then some false else none) :=
  firstKind_append ..

theorem Stands.step {actions : List Action} {s after : Pair} {action : Action}
    {marks : List (Host × Mark)} (stands : Stands actions s)
    (accepted : startStep s action = some (after, marks)) :
    Stands (actions ++ [action]) after := by
  intro z
  have other := startStep_peer accepted
  rw [verdict_append]
  cases action with
  | server x action =>
      obtain ⟨own, move, _marks⟩ := startStep_server accepted
      change after.process x.peer = s.process x.peer at other
      rcases Host.eq_or_eq_peer x z with rfl | rfl
      · -- its own server thread moves
        have silent : (Action.server z action).listens z.peer = false := by
          cases action with
          | listen => simp [Action.listens]
          | _ => rfl
        obtain ⟨client, role⟩ := move.role
        rw [other, silent]
        simp only [Bool.false_eq_true, if_false, Action.connects, Option.or_none]
        exact (stands z).of_same client role
      · -- the other server moves
        have earlier := stands x.peer
        rw [other]
        rw [Host.peer_peer] at earlier ⊢
        rcases move.listens with ⟨rfl, before, listens⟩ | ⟨quiet, listens⟩
        · rw [before] at earlier
          rw [listens]
          simp only [Action.listens, decide_true, if_true]
          exact earlier.listen
        · have silent : (Action.server x action).listens x = false := by
            cases action with
            | listen => exact absurd rfl quiet
            | _ => rfl
          rw [silent, listens]
          simp only [Bool.false_eq_true, if_false, Action.connects, Option.or_none]
          exact earlier
  | client x action =>
      obtain ⟨own, move, _marks⟩ := startStep_client accepted
      change after.process x.peer = s.process x.peer at other
      rcases Host.eq_or_eq_peer x z with rfl | rfl
      · rw [other]
        simp only [Action.listens, Action.connects, decide_true, Bool.true_and,
          Bool.false_eq_true, if_false]
        exact (stands z).client move
      · have earlier := stands x.peer
        rw [other]
        rw [Host.peer_peer] at earlier ⊢
        rw [move.listens]
        simp only [Action.listens, Action.connects, Host.ne_peer, decide_false, Bool.false_and,
          Bool.false_eq_true, if_false, Option.or_none]
        exact earlier

/-- Once a client is connected and has its role, the role tells whether its first
`connect` was heard. -/
theorem role_iff {start final : Pair} {actions : List Action} {marks : List (Host × Mark)}
    (unstarted : Unstarted start)
    (run : Run startStep (fun _ _ => True) start actions marks final) (x : Host)
    (joined : (final.process x).client.Joined) :
    ((final.process x).mchNum = 2 ↔ HeardFirst x actions) ∧
      ((final.process x).mchNum = 1 ↔ ¬ HeardFirst x actions) := by
  have stands : Stands actions final := by
    refine run.history_invariant (fun past _ s => Stands past s) unstarted.stands ?_
    intro past _before before action after shown stands _allowed accepted
    exact stands.step accepted
  have standing := stands x
  rw [standing_joined joined] at standing
  unfold HeardFirst
  rcases standing with ⟨heard, role⟩ | ⟨unheard, role⟩
  · rw [heard, role]
    decide
  · rw [unheard, role]
    decide

def DistinctRoles (s : Pair) : Prop :=
  ∃ x, (s.process x).mchNum = 1 ∧ (s.process x.peer).mchNum = 2

/-- Once both clients are connected and have their roles, these are distinct if and only
if exactly one of the two first connects came after the other server's `listen`. -/
theorem roles_distinct_iff {start final : Pair} {actions : List Action}
    {marks : List (Host × Mark)} (unstarted : Unstarted start)
    (run : Run startStep (fun _ _ => True) start actions marks final)
    (joined : ∀ x, (final.process x).client.Joined) :
    DistinctRoles final ↔ (HeardFirst .one actions ↔ ¬ HeardFirst .two actions) := by
  obtain ⟨oneSecond, oneFirst⟩ := role_iff unstarted run .one (joined .one)
  obtain ⟨twoSecond, twoFirst⟩ := role_iff unstarted run .two (joined .two)
  constructor
  · intro premise
    obtain ⟨x, first, second⟩ := premise
    cases x with
    | one => exact iff_of_false (oneFirst.mp first) (not_not_intro (twoSecond.mp second))
    | two => exact iff_of_true (oneSecond.mp second) (twoFirst.mp first)
  · intro exclusive
    by_cases heard : HeardFirst .one actions
    · exact ⟨.two, twoFirst.mpr (exclusive.mp heard), oneSecond.mpr heard⟩
    · have other : HeardFirst .two actions := by
        by_contra unheard
        exact heard (exclusive.mpr unheard)
      exact ⟨.one, oneFirst.mpr heard, twoSecond.mpr other⟩

def oneThenTwo : List Action :=
  [.server .one .bind, .server .one .listen, .client .one .connect, .client .one .assignRole,
    .server .two .bind, .server .two .listen, .client .two .connect, .client .two .assignRole,
    .client .one .retry]

private theorem oneThenTwo_run : (launch (fun _ _ => True) oneThenTwo).isSome = true := by
  decide

private theorem oneThenTwo_joined (x : Host) :
    (((launch (fun _ _ => True) oneThenTwo).get oneThenTwo_run).1.process x).client.Joined := by
  cases x with
  | one => decide
  | two => decide

theorem roles_distinct_iff_oneThenTwo :
    DistinctRoles ((launch (fun _ _ => True) oneThenTwo).get oneThenTwo_run).1 ↔
      (HeardFirst .one oneThenTwo ↔ ¬ HeardFirst .two oneThenTwo) :=
  roles_distinct_iff zeroPair_unstarted (launch_run _ oneThenTwo oneThenTwo_run)
    oneThenTwo_joined

def bothUnheard : List Action :=
  [.client .one .connect, .client .two .connect, .client .one .assignRole,
    .client .two .assignRole, .server .one .bind, .server .one .listen, .server .two .bind,
    .server .two .listen, .client .one .retry, .client .two .retry]

private theorem bothUnheard_run : (launch (fun _ _ => True) bothUnheard).isSome = true := by
  decide

private theorem bothUnheard_joined (x : Host) :
    (((launch (fun _ _ => True) bothUnheard).get bothUnheard_run).1.process x).client.Joined := by
  cases x with
  | one => decide
  | two => decide

/-- Both processes end as machine 1. -/
theorem roles_distinct_fails :
    ¬ ∀ (start final : Pair) (actions : List Action) (marks : List (Host × Mark)),
      Unstarted start → Run startStep (fun _ _ => True) start actions marks final →
      (∀ x, (final.process x).client.Joined) → DistinctRoles final := by
  intro general
  obtain ⟨x, _first, second⟩ := general _ _ _ _ zeroPair_unstarted
    (launch_run _ bothUnheard bothUnheard_run) bothUnheard_joined
  cases x with
  | one => exact absurd second (by decide)
  | two => exact absurd second (by decide)

end LKP.Dsm
