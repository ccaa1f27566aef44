import Mathlib

/-
Byte buffers with the C operations on them: `memset`, `memcpy`, `strlen` and the
string a pointer denotes.  A buffer is addressed by integer offsets; how much of
it is really allocated is the user's concern and is passed as a limit.
-/

set_option autoImplicit false

namespace LKP.CBuffer

abbrev Buffer := Int → UInt8

def memset (buffer : Buffer) (offset : Int) (byte : UInt8) (length : Nat) : Buffer :=
  fun index => if offset ≤ index ∧ index < offset + length then byte else buffer index

def memcpy (buffer : Buffer) (offset : Int) (bytes : List UInt8) : Buffer :=
  fun index =>
    if offset ≤ index ∧ index < offset + bytes.length then
      bytes.getD (index - offset).toNat 0
    else buffer index

/-- The bytes before the first NUL, looking at no more than `limit` bytes. -/
def cString (buffer : Buffer) (offset : Int) : Nat → List UInt8
  | 0 => []
  | limit + 1 =>
      if buffer offset = 0 then [] else buffer offset :: cString buffer (offset + 1) limit

/-- The bytes `strlen` counts in a line held in a NUL-terminated buffer. -/
def strBytes (line : List UInt8) : List UInt8 := line.takeWhile (fun byte => byte != 0)

def Holds (buffer : Buffer) (offset : Int) (text : List UInt8) : Prop :=
  ∀ index (within : index < text.length), buffer (offset + index) = text[index]

theorem memset_inside (buffer : Buffer) (offset : Int) (byte : UInt8) (length : Nat)
    {index : Int} (lower : offset ≤ index) (upper : index < offset + length) :
    memset buffer offset byte length index = byte :=
  if_pos ⟨lower, upper⟩

theorem memset_outside (buffer : Buffer) (offset : Int) (byte : UInt8) (length : Nat)
    {index : Int} (outside : index < offset ∨ offset + length ≤ index) :
    memset buffer offset byte length index = buffer index := by
  apply if_neg
  omega

theorem memcpy_outside (buffer : Buffer) (offset : Int) (bytes : List UInt8)
    {index : Int} (outside : index < offset ∨ offset + bytes.length ≤ index) :
    memcpy buffer offset bytes index = buffer index := by
  apply if_neg
  omega

theorem memcpy_congr {left right : Buffer} (offset : Int) (bytes : List UInt8) {index : Int}
    (same : left index = right index) :
    memcpy left offset bytes index = memcpy right offset bytes index := by
  rw [memcpy, memcpy, same]

theorem memcpy_holds (buffer : Buffer) (offset : Int) (bytes : List UInt8) :
    Holds (memcpy buffer offset bytes) offset bytes := by
  intro index within
  have inside : offset ≤ offset + index ∧ offset + index < offset + bytes.length := by omega
  have distance : (offset + (index : Int) - offset).toNat = index := by omega
  simp only [memcpy, if_pos inside, distance]
  exact (List.getElem_eq_getD 0).symm

theorem Holds.of_agree {before after : Buffer} {offset : Int} {text : List UInt8}
    (held : Holds before offset text)
    (agree : ∀ index : Int, offset ≤ index → index < offset + text.length →
      after index = before index) : Holds after offset text := by
  intro index within
  rw [agree (offset + index) (by omega) (by omega)]
  exact held index within

theorem Holds.left {buffer : Buffer} {offset : Int} {text more : List UInt8}
    (held : Holds buffer offset (text ++ more)) : Holds buffer offset text := by
  intro index within
  have whole := held index (by rw [List.length_append]; omega)
  rw [whole, List.getElem_append_left within]

theorem cString_of_nul (buffer : Buffer) (offset : Int) (limit : Nat)
    (nul : buffer offset = 0) : cString buffer offset limit = [] := by
  cases limit with
  | zero => rfl
  | succ limit => simp only [cString, if_pos nul]

theorem cString_congr_of_nul {left right : Buffer} (offset : Int) (limit distance : Nat)
    (same : ∀ index : Int, offset ≤ index → index ≤ offset + distance →
      left index = right index)
    (nul : right (offset + distance) = 0) :
    cString left offset limit = cString right offset limit := by
  induction limit generalizing offset distance with
  | zero => rfl
  | succ limit ih =>
      have head : left offset = right offset := same offset (by omega) (by omega)
      simp only [cString, head]
      split
      · rfl
      · rename_i present
        cases distance with
        | zero =>
            rw [Int.natCast_zero, Int.add_zero] at nul
            exact absurd nul present
        | succ distance =>
            have further : right (offset + 1 + distance) = 0 := by
              rw [← nul]
              congr 1
              omega
            rw [ih (offset + 1) distance
              (fun index lower upper => same index (by omega) (by omega)) further]

theorem cString_nulFree (buffer : Buffer) (offset : Int) (limit : Nat) :
    (0 : UInt8) ∉ cString buffer offset limit := by
  induction limit generalizing offset with
  | zero => exact List.not_mem_nil
  | succ limit ih =>
      simp only [cString]
      split
      · exact List.not_mem_nil
      · rename_i present
        intro member
        rcases List.mem_cons.mp member with same | later
        · exact present same.symm
        · exact ih (offset + 1) later

theorem cString_length_le_of_nul (buffer : Buffer) (offset : Int) (limit distance : Nat)
    (nul : buffer (offset + distance) = 0) :
    (cString buffer offset limit).length ≤ distance := by
  induction limit generalizing offset distance with
  | zero => exact Nat.zero_le _
  | succ limit ih =>
      simp only [cString]
      split
      · exact Nat.zero_le _
      · rename_i present
        cases distance with
        | zero =>
            rw [Int.natCast_zero, Int.add_zero] at nul
            exact absurd nul present
        | succ distance =>
            have further : buffer (offset + 1 + distance) = 0 := by
              rw [← nul]
              congr 1
              omega
            exact Nat.succ_le_succ (ih (offset + 1) distance further)

/-- A held NUL-free text is a prefix of the string, and what follows it is the
string that starts behind it. -/
theorem cString_of_holds (buffer : Buffer) (offset : Int) (limit : Nat) (text : List UInt8)
    (held : Holds buffer offset text) (nulFree : (0 : UInt8) ∉ text)
    (fits : text.length ≤ limit) :
    cString buffer offset limit =
      text ++ cString buffer (offset + text.length) (limit - text.length) := by
  induction text generalizing offset limit with
  | nil => simp
  | cons head tail ih =>
      cases limit with
      | zero => exact absurd fits (Nat.not_succ_le_zero _)
      | succ limit =>
          have first : buffer offset = head := by
            simpa using held 0 (Nat.zero_lt_succ _)
          have headPresent : head ≠ 0 := fun same =>
            nulFree (same ▸ List.mem_cons_self)
          have tailHeld : Holds buffer (offset + 1) tail := by
            intro index within
            have later := held (index + 1) (Nat.succ_lt_succ within)
            rw [List.getElem_cons_succ] at later
            rw [← later]
            congr 1
            omega
          have rest := ih (offset + 1) limit tailHeld
            (fun member => nulFree (List.mem_cons_of_mem head member))
            (Nat.le_of_succ_le_succ fits)
          have position : offset + 1 + (tail.length : Int) =
              offset + ((head :: tail).length : Nat) := by
            rw [List.length_cons]
            omega
          simp only [cString, first, if_neg headPresent, rest, List.cons_append, position,
            List.length_cons, Nat.add_sub_add_right]

/-- The string is exactly the held text when a NUL stands behind it. -/
theorem cString_eq_iff (buffer : Buffer) (offset : Int) (limit : Nat) (text : List UInt8)
    (held : Holds buffer offset text) (nulFree : (0 : UInt8) ∉ text)
    (fits : text.length < limit) :
    cString buffer offset limit = text ↔ buffer (offset + text.length) = 0 := by
  rw [cString_of_holds buffer offset limit text held nulFree (Nat.le_of_lt fits),
    List.append_right_eq_self]
  obtain ⟨spare, room⟩ : ∃ spare, limit - text.length = spare + 1 :=
    ⟨limit - text.length - 1, by omega⟩
  rw [room]
  constructor
  · intro empty
    simp only [cString] at empty
    split at empty
    · assumption
    · cases empty
  · exact cString_of_nul _ _ _

/-- The string is shorter than a bound when a NUL stands before it. -/
theorem cString_length_lt_iff (buffer : Buffer) (offset : Int) {limit bound : Nat}
    (within : bound ≤ limit) :
    (cString buffer offset limit).length < bound ↔
      ∃ distance : Nat, distance < bound ∧ buffer (offset + distance) = 0 := by
  constructor
  · intro short
    induction limit generalizing offset bound with
    | zero => exact absurd short (by omega)
    | succ limit ih =>
        simp only [cString] at short
        split at short
        · rename_i nul
          exact ⟨0, Nat.lt_of_le_of_lt (Nat.zero_le _) short, by rw [← nul]; congr 1; simp⟩
        · obtain ⟨bound, rfl⟩ : ∃ smaller, bound = smaller + 1 := ⟨bound - 1, by omega⟩
          obtain ⟨distance, near, nul⟩ := ih (offset + 1) (Nat.le_of_succ_le_succ within)
            (Nat.lt_of_succ_lt_succ short)
          refine ⟨distance + 1, Nat.succ_lt_succ near, ?_⟩
          rw [← nul]
          congr 1
          omega
  · intro terminated
    obtain ⟨distance, near, nul⟩ := terminated
    exact Nat.lt_of_le_of_lt (cString_length_le_of_nul buffer offset limit distance nul) near

/-- Copied without a terminator, a text reads as itself if one was there before. -/
theorem cString_memcpy_eq_iff (buffer : Buffer) (offset : Int) (limit : Nat)
    (text : List UInt8) (nulFree : (0 : UInt8) ∉ text) (fits : text.length < limit) :
    cString (memcpy buffer offset text) offset limit = text ↔
      buffer (offset + text.length) = 0 := by
  rw [cString_eq_iff _ offset limit text (memcpy_holds buffer offset text) nulFree fits,
    memcpy_outside buffer offset text (.inr (Int.le_refl _))]

theorem strBytes_eq_self {line : List UInt8} (nulFree : (0 : UInt8) ∉ line) :
    strBytes line = line := by
  apply List.takeWhile_eq_self_iff.mpr
  intro byte member
  have different : byte ≠ 0 := fun same => nulFree (same ▸ member)
  simpa using different

theorem strBytes_length_le (line : List UInt8) : (strBytes line).length ≤ line.length :=
  (List.takeWhile_prefix _).length_le

theorem strBytes_nulFree (line : List UInt8) : (0 : UInt8) ∉ strBytes line := by
  intro member
  have present := List.mem_takeWhile_imp member
  exact absurd present (by simp)

theorem strBytes_length_eq_iff (line : List UInt8) :
    (strBytes line).length = line.length ↔ (0 : UInt8) ∉ line := by
  constructor
  · intro whole
    have same : strBytes line = line := (List.takeWhile_prefix _).eq_of_length whole
    rw [← same]
    exact strBytes_nulFree line
  · intro nulFree
    rw [strBytes_eq_self nulFree]

theorem strBytes_cons (byte : UInt8) (line : List UInt8) :
    strBytes (byte :: line) = if byte = 0 then [] else byte :: strBytes line := by
  rw [strBytes, List.takeWhile_cons]
  by_cases nul : byte = 0
  · simp [nul]
  · simp [nul, strBytes]

theorem strBytes_terminated (line rest : List UInt8) :
    strBytes (line ++ 0 :: rest) = strBytes line := by
  induction line with
  | nil => rfl
  | cons byte line ih => rw [List.cons_append, strBytes_cons, strBytes_cons, ih]

theorem drop_strBytes {line : List UInt8} (nul : (0 : UInt8) ∈ line) :
    ∃ rest, line.drop (strBytes line).length = 0 :: rest := by
  induction line with
  | nil => exact absurd nul List.not_mem_nil
  | cons byte line ih =>
      rw [strBytes_cons]
      by_cases first : byte = 0
      · rw [if_pos first, first]
        exact ⟨line, rfl⟩
      · rw [if_neg first]
        exact ih ((List.mem_cons.mp nul).resolve_left (fun same => first same.symm))

end LKP.CBuffer
