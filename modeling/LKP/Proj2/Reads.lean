import LKP.Proj2.SortedTree

/-
Read after read of `/proc/proj2`.

`seq_file` calls `proj2_proc_show` once for every read, and once more whenever its
buffer was too small.  Each call starts from empty structures and leaves them
empty, and what it returns and prints depends on the parameter alone.
-/

set_option autoImplicit false

namespace LKP.Proj2

def reads (kernel : Kernel) : Nat → Module → Option (List (Int × String) × Module)
  | 0, m => some ([], m)
  | count + 1, m =>
      match reads kernel count m with
      | none => none
      | some (results, m) =>
          match proj2ProcShow kernel m with
          | none => none
          | some (code, shown, m) => some (results ++ [(code, shown)], m)

def showResult (kernel : Kernel) : Option (List Char) → Int × String
  | none => (-1, "")
  | some text =>
      match parsedTokens kernel (text.splitOn ',') with
      | .ok values => (0, fourLines (numbersOf values) (numbersOf (hashOrder kernel values)))
      | .error error => (error.code, "")

section Granted

variable {kernel : Kernel} (documented : kernel.Documented)
  (grants : ∀ request, kernel.grants request = true)

include documented grants

/-- From empty structures, a call depends on nothing but the parameter. -/
theorem proj2ProcShow_result {m : Module} (empty : m.Empty) :
    ∃ after, proj2ProcShow kernel m =
        some ((showResult kernel m.intStr).1, (showResult kernel m.intStr).2, after) ∧
      after.Empty ∧ after.intStr = m.intStr := by
  cases parameter : m.intStr with
  | none =>
      obtain ⟨after, emptied, kept, result⟩ := @proj2ProcShow_missing kernel m parameter empty
      exact ⟨after, result, emptied, kept.trans parameter⟩
  | some text =>
      cases tokens : parsedTokens kernel (text.splitOn ',') with
      | ok values =>
          obtain ⟨_, after, emptied, kept, result⟩ :=
            proj2ProcShow_accepted documented grants parameter empty tokens
          refine ⟨after, ?_, emptied, kept.trans parameter⟩
          simp only [showResult, tokens, result]
      | error error =>
          obtain ⟨after, emptied, kept, result⟩ :=
            proj2ProcShow_rejected documented grants parameter empty tokens
          refine ⟨after, ?_, emptied, kept.trans parameter⟩
          simp only [showResult, tokens, result]

theorem reads_result {m : Module} (empty : m.Empty) (count : Nat) :
    ∃ after, reads kernel count m =
        some (List.replicate count (showResult kernel m.intStr), after) ∧
      after.Empty ∧ after.intStr = m.intStr := by
  induction count with
  | zero => exact ⟨m, rfl, empty, rfl⟩
  | succ count ih =>
      obtain ⟨between, earlier, emptied, kept⟩ := ih
      obtain ⟨after, result, emptiedAgain, keptAgain⟩ :=
        proj2ProcShow_result documented grants emptied
      refine ⟨after, ?_, emptiedAgain, keptAgain.trans kept⟩
      rw [kept] at result
      simp only [reads, earlier, result, List.replicate_succ']

/-- The show is repeatable: however often it was called, the next call finds the four
structures empty, leaves them empty, and returns and prints what every other call does. -/
theorem proj2ProcShow_repeats {m : Module} (empty : m.Empty) :
    ∃ code shown, ∀ count, ∃ found left,
      reads kernel count m = some (List.replicate count (code, shown), found) ∧ found.Empty ∧
      proj2ProcShow kernel found = some (code, shown, left) ∧ left.Empty := by
  refine ⟨(showResult kernel m.intStr).1, (showResult kernel m.intStr).2, ?_⟩
  intro count
  obtain ⟨found, earlier, emptied, kept⟩ := reads_result documented grants empty count
  obtain ⟨left, result, emptiedAgain, _⟩ := proj2ProcShow_result documented grants emptied
  rw [kept] at result
  exact ⟨found, left, earlier, emptied, result, emptiedAgain⟩

end Granted

theorem proj2ProcShow_repeats_plain :
    (∃ code shown, ∀ count, ∃ found left,
      reads plainKernel count (loaded "4,x") =
        some (List.replicate count (code, shown), found) ∧ found.Empty ∧
      proj2ProcShow plainKernel found = some (code, shown, left) ∧ left.Empty) ∧
    (∃ code shown, ∀ count, ∃ found left,
      reads plainKernel count (loaded "7,-1,7") =
        some (List.replicate count (code, shown), found) ∧ found.Empty ∧
      proj2ProcShow plainKernel found = some (code, shown, left) ∧ left.Empty) := by
  constructor
  · exact proj2ProcShow_repeats plainKernel_documented (fun _ => rfl)
      ⟨rfl, fun _ => rfl, rfl, Std.TreeMap.isEmpty_emptyc⟩
  · exact proj2ProcShow_repeats plainKernel_documented (fun _ => rfl)
      ⟨rfl, fun _ => rfl, rfl, Std.TreeMap.isEmpty_emptyc⟩

end LKP.Proj2
