import Mathlib

/-
Reads of a text that does not change, each beginning where the one before it ended.

What the reads get one after the other is what a single read of all of them together
would get, however the counts are chosen.
-/

set_option autoImplicit false

namespace LKP.SequentialRead

variable {Item : Type}

/-- What a read of `count` items at `offset` gets. -/
def chunk (text : List Item) (offset count : Nat) : List Item := (text.drop offset).take count

/-- What reads of these counts get, the first of them at `offset`. -/
def readFrom (text : List Item) : Nat → List Nat → List (List Item)
  | _, [] => []
  | offset, count :: rest =>
      chunk text offset count ::
        readFrom text (offset + (chunk text offset count).length) rest

theorem chunk_length (text : List Item) (offset count : Nat) :
    (chunk text offset count).length = min count (text.length - offset) := by
  rw [chunk, List.length_take, List.length_drop]

@[simp] theorem chunk_zero (text : List Item) (offset : Nat) : chunk text offset 0 = [] :=
  List.take_zero

theorem chunk_inside {text : List Item} {offset : Nat} (inside : offset ≤ text.length)
    (count : Nat) : offset + (chunk text offset count).length ≤ text.length := by
  rw [chunk_length]
  omega

/-- A read of something gets nothing at the end of the text, and nowhere else. -/
theorem chunk_eq_nil_iff {text : List Item} {offset count : Nat} (positive : 0 < count) :
    chunk text offset count = [] ↔ text.length ≤ offset := by
  rw [← List.length_eq_zero_iff, chunk_length]
  omega

theorem chunk_append_chunk (text : List Item) (offset first second : Nat) :
    chunk text offset first ++ chunk text (offset + (chunk text offset first).length) second =
      chunk text offset (first + second) := by
  by_cases within : first ≤ text.length - offset
  · rw [chunk_length, Nat.min_eq_left within, chunk, chunk, chunk, ← List.drop_drop,
      List.take_add]
  · have ended : text.length ≤ offset + (chunk text offset first).length := by
      rw [chunk_length]
      omega
    have whole : (text.drop offset).length ≤ first := by
      rw [List.length_drop]
      omega
    have nothing : chunk text (offset + (chunk text offset first).length) second = [] := by
      rw [chunk, List.drop_eq_nil_of_le ended, List.take_nil]
    rw [nothing, List.append_nil, chunk, chunk, List.take_of_length_le whole,
      List.take_of_length_le (by omega)]

/-- A read at the end of a beginning of the text continues it. -/
theorem append_chunk_isPrefix {begun text : List Item} (start : begun <+: text) (count : Nat) :
    begun ++ chunk text begun.length count <+: text := by
  obtain ⟨rest, rfl⟩ := start
  rw [chunk, List.drop_left]
  exact (List.prefix_append_right_inj begun).mpr (List.take_prefix count rest)

theorem readFrom_flatten (text : List Item) (offset : Nat) (counts : List Nat) :
    (readFrom text offset counts).flatten = chunk text offset counts.sum := by
  induction counts generalizing offset with
  | nil =>
      rw [readFrom, List.sum_nil, chunk_zero]
      rfl
  | cons count rest ih =>
      rw [readFrom, List.flatten_cons, ih, chunk_append_chunk, List.sum_cons]

/-- From the start on, the reads get a beginning of the text. -/
theorem readFrom_prefix (text : List Item) (counts : List Nat) :
    (readFrom text 0 counts).flatten <+: text := by
  rw [readFrom_flatten, chunk, List.drop_zero]
  exact List.take_prefix _ _

end LKP.SequentialRead
