import LKP.Library.CBuffer

/-
Texts that are copied over one another to the same place, without their terminators, onto
zeros.

A byte of the place is zero as long as no text has reached it.  So the string that is read
there is the last text, unless one before it was longer.
-/

set_option autoImplicit false

namespace LKP.Overlay

open CBuffer

/-- What the copies of these texts leave, one after the other. -/
def overlay (offset : Int) (texts : List (List UInt8)) : Buffer :=
  texts.foldl (fun buffer text => memcpy buffer offset text) (fun _ => 0)

def lastText (texts : List (List UInt8)) : List UInt8 := texts.getLast?.getD []

theorem overlay_concat (offset : Int) (texts : List (List UInt8)) (text : List UInt8) :
    overlay offset (texts ++ [text]) = memcpy (overlay offset texts) offset text :=
  List.foldl_concat _ _ _ _

theorem lastText_concat (texts : List (List UInt8)) (text : List UInt8) :
    lastText (texts ++ [text]) = text := by
  rw [lastText, List.getLast?_concat, Option.getD_some]

theorem overlay_eq_zero_iff (offset : Int) {texts : List (List UInt8)}
    (nulFree : ∀ text ∈ texts, (0 : UInt8) ∉ text) (position : Nat) :
    overlay offset texts (offset + position) = 0 ↔
      ∀ text ∈ texts, text.length ≤ position := by
  induction texts using List.reverseRecOn with
  | nil => exact iff_of_true rfl (fun _ member => absurd member List.not_mem_nil)
  | append_singleton texts text ih =>
      have earlier := ih (fun text member => nulFree text (List.mem_append_left _ member))
      have lastFree := nulFree text (List.mem_append_right texts List.mem_cons_self)
      rw [overlay_concat, List.forall_mem_append, List.forall_mem_singleton, ← earlier]
      by_cases reached : position < text.length
      · have held := memcpy_holds (overlay offset texts) offset text position reached
        have present : text[position] ≠ 0 := fun zero =>
          lastFree (zero ▸ List.getElem_mem reached)
        rw [held]
        exact iff_of_false present (fun both => Nat.not_le_of_lt reached both.2)
      · have short := Nat.le_of_not_lt reached
        rw [memcpy_outside _ offset text (.inr (by omega))]
        exact (and_iff_left short).symm

/-- The last text is what is read when no text was longer. -/
theorem cString_overlay_iff (offset : Int) {texts : List (List UInt8)} {limit : Nat}
    (nulFree : ∀ text ∈ texts, (0 : UInt8) ∉ text)
    (fits : ∀ text ∈ texts, text.length < limit) :
    cString (overlay offset texts) offset limit = lastText texts ↔
      ∀ text ∈ texts, text.length ≤ (lastText texts).length := by
  induction texts using List.reverseRecOn with
  | nil =>
      have empty : cString (overlay offset []) offset limit = [] := cString_of_nul _ _ _ rfl
      exact iff_of_true empty (fun _ member => absurd member List.not_mem_nil)
  | append_singleton texts text =>
      have lastMember : text ∈ texts ++ [text] :=
        List.mem_append_right texts List.mem_cons_self
      have earlierFree : ∀ text ∈ texts, (0 : UInt8) ∉ text := fun text member =>
        nulFree text (List.mem_append_left _ member)
      rw [overlay_concat, lastText_concat, List.forall_mem_append, List.forall_mem_singleton,
        cString_memcpy_eq_iff _ offset limit text (nulFree text lastMember)
          (fits text lastMember), overlay_eq_zero_iff offset earlierFree]
      exact (and_iff_left (Nat.le_refl _)).symm

end LKP.Overlay
