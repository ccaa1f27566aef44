import LKP.Proj2.FailedInserts

/-
How much memory the reads of `/proc/proj2` keep.

Whether a parameter is accepted or not, the values before the first token that is rejected have
been stored when the four structures are taken down.
-/

set_option autoImplicit false

namespace LKP.Proj2

/-- What a call keeps that stored these values: `temp2`, the entries in the radix tree, and
those that the other tree refused. -/
def keptAfter (values : List Int32) : Nat :=
  1 + values.length + (values.length - (numbersOf values).toFinset.card)

def keptByRead (kernel : Kernel) : Option (List Char) → Nat
  | none => 1
  | some text => keptAfter (acceptedTokens kernel (text.splitOn ',')).1

example : keptByRead plainKernel (loaded "7,-1,7").intStr = 5 := by decide +kernel

theorem keptAfter_of_outstanding {values : List Int32} {out back : Nat}
    (outstanding : out + (numbersOf values).toFinset.card = back + 1 + 2 * values.length) :
    out = back + keptAfter values := by
  have fewer := List.toFinset_card_le (numbersOf values)
  have same : (numbersOf values).length = values.length := List.length_map _
  rw [keptAfter]
  omega

section Granted

variable {kernel : Kernel}

/-- The loop stores the values before the first token that is rejected. -/
theorem parseLoop_accepted {Holds : List Int32 → Module → Prop}
    (stores : ∀ values val m, Holds values m →
      ∃ after, storeAll kernel val m = some (0, after) ∧ Holds (values ++ [val]) after)
    {tokens : List (List Char)} {params : Option (List Char)} {values : List Int32} {m : Module}
    (left : tokensOf params = tokens) (holds : Holds values m) :
    ∃ err after, parseLoop kernel params 0 m = some (err, after) ∧
      Holds (values ++ (acceptedTokens kernel tokens).1) after := by
  induction tokens generalizing params values m with
  | nil =>
      obtain rfl := tokensOf_nil left
      rw [acceptedTokens, List.append_nil]
      exact ⟨0, m, parseLoop_end 0 m, holds⟩
  | cons token later ih =>
      obtain ⟨rest, separated, following⟩ := strsep_cons left
      rw [parseLoop_token 0 m separated, acceptedTokens]
      by_cases blank : token = []
      · rw [if_pos blank, if_pos blank]
        exact ih following holds
      · rw [if_neg blank, if_neg blank]
        cases kernel.kstrtoint token with
        | error error =>
            refine ⟨error.code, m, rfl, ?_⟩
            rw [List.append_nil]
            exact holds
        | ok val =>
            obtain ⟨added, storing, holdsMore⟩ := stores values val m holds
            obtain ⟨err, after, looped, holdsAll⟩ := ih following holdsMore
            simp only [storing, ne_eq, not_true_eq_false, if_false]
            rw [List.append_assoc] at holdsAll
            exact ⟨err, after, looped, holdsAll⟩

variable (documented : kernel.Documented) (grants : ∀ request, kernel.grants request = true)

include documented grants

/-- One call keeps as much as it is said to. -/
theorem proj2ProcShow_kept {m after : Module} {code : Int} {shown : String} (empty : m.Empty)
    (called : proj2ProcShow kernel m = some (code, shown, after)) :
    ∃ events, after.ledger = m.ledger ++ events ∧
      handedOut events = givenBack events + keptByRead kernel m.intStr := by
  cases given : m.intStr with
  | none =>
      simp only [proj2ProcShow, kmalloc_granted grants, granted, given, printk] at called
      cases called
      exact ⟨[.alloc m.requests], rfl, rfl⟩
  | some text =>
      have sameText : (granted m).intStr = some text := given
      have start : Accounted (granted (granted m)) [] (granted (granted m)) :=
        empty.granted.granted.accounted
      have tokens : tokensOf (some text) = text.splitOn ',' := rfl
      obtain ⟨err, filled, looped, accounted⟩ := parseLoop_accepted
        (fun values val m holds => holds.storeAll documented grants val) tokens start
      have parsing : parseParams kernel (granted m) =
          some (err, kfree (m.requests + 1) filled) := by
        simp only [parseParams, sameText, kmalloc_granted grants, looped]
        rfl
      obtain ⟨taken, counted, _, ledger⟩ :=
        parsed_events documented grants given parsing accounted called
      have kept := accounted.outstanding counted m.requests (m.requests + 1) rfl
      rw [List.nil_append] at kept
      exact ⟨_, ledger, keptAfter_of_outstanding kept⟩

/-- Any number of reads keep that many times what one read keeps. -/
theorem reads_kept {m : Module} (empty : m.Empty) (count : Nat) :
    ∃ results after events, reads kernel count m = some (results, after) ∧
      after.ledger = m.ledger ++ events ∧
      handedOut events = givenBack events + count * keptByRead kernel m.intStr := by
  induction count with
  | zero => exact ⟨[], m, [], rfl, (List.append_nil _).symm, by simp [handedOut, givenBack]⟩
  | succ count ih =>
      obtain ⟨results, between, events, before, ledger, kept⟩ := ih
      obtain ⟨found, again, emptied, sameText⟩ := reads_result documented grants empty count
      cases before.symm.trans again
      obtain ⟨after, called, _, _⟩ := proj2ProcShow_result documented grants emptied
      obtain ⟨more, lastLedger, lastKept⟩ :=
        proj2ProcShow_kept documented grants emptied called
      refine ⟨_, after, events ++ more, by simp only [reads, before, called]; rfl, ?_, ?_⟩
      · rw [lastLedger, ledger, List.append_assoc]
      · rw [sameText] at lastKept
        rw [Nat.succ_mul]
        simp only [handedOut, givenBack, List.countP_append] at kept lastKept ⊢
        omega

end Granted

theorem reads_kept_rejected :
    ∃ results after events, reads plainKernel 3 (loaded "7,7,x,8") = some (results, after) ∧
      after.ledger = (loaded "7,7,x,8").ledger ++ events ∧
      handedOut events =
        givenBack events + 3 * keptByRead plainKernel (loaded "7,7,x,8").intStr :=
  reads_kept plainKernel_documented (fun _ => rfl)
    ⟨rfl, fun _ => rfl, rfl, Std.TreeMap.isEmpty_emptyc⟩ 3

end LKP.Proj2
