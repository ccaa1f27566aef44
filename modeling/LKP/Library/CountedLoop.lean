import Mathlib

/-
A loop that tests a counter, acts, and moves the counter on.

Fuel bounds the number of rounds, so that a loop that goes on has no result.  When it is
known which values the counter runs through, the loop is a fold over them.
-/

set_option autoImplicit false

namespace LKP.CountedLoop

variable {Counter State : Type}

def countedLoop (test : Counter → Bool) (next : Counter → Counter)
    (body : Counter → State → State) : Nat → Counter → State → Option State
  | 0, _, _ => none
  | fuel + 1, counter, state =>
      if test counter then
        countedLoop test next body fuel (next counter) (body counter state)
      else some state

variable {test : Counter → Bool} {next : Counter → Counter} {body : Counter → State → State}

/-- The rounds of a loop whose counter runs through `values`. -/
theorem countedLoop_rounds (values : Nat → Counter) {rounds fuel : Nat}
    (moves : ∀ round < rounds, next (values round) = values (round + 1))
    (running : ∀ round < rounds, test (values round) = true)
    (stopped : test (values rounds) = false) (enough : rounds < fuel) (state : State) :
    countedLoop test next body fuel (values 0) state =
      some ((List.range rounds).foldl (fun state round => body (values round) state) state) := by
  induction rounds generalizing values fuel state with
  | zero =>
      obtain ⟨fuel, rfl⟩ : ∃ less, fuel = less + 1 := ⟨fuel - 1, by omega⟩
      rw [countedLoop, stopped]
      rfl
  | succ rounds ih =>
      obtain ⟨fuel, rfl⟩ : ∃ less, fuel = less + 1 := ⟨fuel - 1, by omega⟩
      have rest := ih (fun round => values (round + 1))
        (fun round earlier => moves (round + 1) (Nat.succ_lt_succ earlier))
        (fun round earlier => running (round + 1) (Nat.succ_lt_succ earlier))
        stopped (Nat.lt_of_succ_lt_succ enough) (body (values 0) state)
      rw [countedLoop, running 0 (Nat.zero_lt_succ _), if_pos rfl,
        moves 0 (Nat.zero_lt_succ _), rest, List.range_succ_eq_map, List.foldl_cons,
        List.foldl_map]

/-- A loop that ends has acted on a list of counters. -/
theorem countedLoop_ended {fuel : Nat} {counter : Counter} {state final : State}
    (ended : countedLoop test next body fuel counter state = some final) :
    ∃ counters : List Counter,
      final = counters.foldl (fun state counter => body counter state) state := by
  induction fuel generalizing counter state with
  | zero => cases ended
  | succ fuel ih =>
      rw [countedLoop] at ended
      split at ended
      · obtain ⟨counters, same⟩ := ih ended
        exact ⟨counter :: counters, same⟩
      · cases ended
        exact ⟨[], rfl⟩

theorem foldl_noted {Item Note : Type} (note : Item → Note) (items : List Item)
    (noted : List Note) :
    items.foldl (fun noted item => noted ++ [note item]) noted = noted ++ items.map note := by
  rw [List.foldl_append_eq_append, ← List.flatMap_def, ← List.map_eq_flatMap]

end LKP.CountedLoop
