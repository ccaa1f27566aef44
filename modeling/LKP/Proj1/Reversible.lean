import LKP.Proj1.Encrypt

/-
What `s2_encrypt` prints of a string, and when the string can be had back from it.

A byte that the key takes to 256 becomes a NUL, at which the print ends.  Up to there the
key can be subtracted again.
-/

set_option autoImplicit false

namespace LKP.Proj1

open CBuffer

structure StoredString (memory : UserMemory) (strval : Nat) (text : List UInt8) : Prop where
  held : readable memory strval (text.length + 1) = text ++ [0]
  nulFree : (0 : UInt8) ∉ text
  short : text.length < 1024

def printedBy (kernel : Kernel) (memory : UserMemory) (strval : Nat) (keyval : Int32) :
    Option (List UInt8) :=
  (s2Encrypt kernel memory strval keyval).bind Outcome.printedString

/-- A print of the same length as the text, from which the key can be subtracted. -/
def Reverses (keyval : Int32) (text printed : List UInt8) : Prop :=
  printed.length = text.length ∧ printed.map (decreased keyval) = text

def NoneWraps (keyval : Int32) (text : List UInt8) : Prop :=
  ∀ byte ∈ text, (byte.toNat : Int) + keyval.toInt ≠ 256

/-! ### Bytes -/

theorem decreased_increased (keyval : Int32) (byte : UInt8) :
    decreased keyval (increased keyval byte) = byte := by
  have bound := byte.toNat_lt
  have same : ((decreased keyval (increased keyval byte)).toNat : Int) = byte.toNat := by
    rw [decreased, ofInt_toNat, increased, ofInt_toNat]
    omega
  exact UInt8.toNat_inj.mp (Int.ofNat_inj.mp same)

theorem increased_eq_zero_iff {keyval : Int32} (inRange : KeyInRange keyval) {byte : UInt8}
    (present : byte ≠ 0) :
    increased keyval byte = 0 ↔ (byte.toNat : Int) + keyval.toInt = 256 := by
  have bound := byte.toNat_lt
  have positive : byte.toNat ≠ 0 := fun zero => present (UInt8.toNat_inj.mp zero)
  obtain ⟨lower, upper⟩ := inRange
  have value := ofInt_toNat ((byte.toNat : Int) + keyval.toInt)
  rw [← UInt8.toNat_inj, increased]
  show (UInt8.ofInt _).toNat = 0 ↔ _
  omega

/-! ### Strings -/

variable {keyval : Int32} {text : List UInt8}

theorem map_decreased_increased (keyval : Int32) (text : List UInt8) :
    (text.map (increased keyval)).map (decreased keyval) = text := by
  induction text with
  | nil => rfl
  | cons byte text ih =>
      rw [List.map_cons, List.map_cons, decreased_increased, ih]

theorem noneWraps_iff (inRange : KeyInRange keyval) (nulFree : (0 : UInt8) ∉ text) :
    NoneWraps keyval text ↔ (0 : UInt8) ∉ text.map (increased keyval) := by
  have present : ∀ byte ∈ text, byte ≠ 0 := fun byte member same => nulFree (same ▸ member)
  constructor
  · intro none wrapped
    obtain ⟨byte, member, zero⟩ := List.mem_map.mp wrapped
    exact none byte member ((increased_eq_zero_iff inRange (present byte member)).mp zero)
  · intro free byte member sum
    have zero := (increased_eq_zero_iff inRange (present byte member)).mpr sum
    exact free (List.mem_map.mpr ⟨byte, member, zero⟩)

/-- The print of a text reverses to it when none of its bytes wraps. -/
theorem reverses_iff (inRange : KeyInRange keyval) (nulFree : (0 : UInt8) ∉ text) :
    Reverses keyval text (strBytes (text.map (increased keyval))) ↔ NoneWraps keyval text := by
  rw [noneWraps_iff inRange nulFree, ← strBytes_length_eq_iff, List.length_map]
  constructor
  · exact And.left
  · intro whole
    have unwrapped : (0 : UInt8) ∉ text.map (increased keyval) := by
      rw [← strBytes_length_eq_iff, whole, List.length_map]
    rw [Reverses, strBytes_eq_self unwrapped]
    exact ⟨List.length_map _, map_decreased_increased keyval text⟩

theorem Reverses.unique {left right printed : List UInt8} (first : Reverses keyval left printed)
    (second : Reverses keyval right printed) : left = right :=
  first.2.symm.trans second.2

/-! ### The call -/

variable {kernel : Kernel} {memory : UserMemory} {strval : Nat}

theorem StoredString.measured (stored : StoredString memory strval text)
    (documented : kernel.Documented) :
    kernel.strnlenUser memory strval 1024 = text.length + 1 := by
  have beginning := readable_take memory strval stored.short
  rw [stored.held] at beginning
  have whole := List.take_append_drop (text.length + 1) (readable memory strval 1024)
  rw [beginning, List.append_assoc, List.singleton_append] at whole
  have nul : (0 : UInt8) ∈ readable memory strval 1024 := by
    rw [← whole]
    exact List.mem_append_right text List.mem_cons_self
  rw [documented.terminated memory strval 1024 nul, ← whole, strBytes_terminated,
    strBytes_eq_self stored.nulFree]

theorem StoredString.delimited (stored : StoredString memory strval text)
    (documented : kernel.Documented) : Delimited kernel memory strval := by
  unfold Delimited
  rw [stored.measured documented]
  simp only [stored.held]
  exact ⟨List.length_append, List.mem_append_right text List.mem_cons_self⟩

theorem printedBy_stored (documented : kernel.Documented) (inRange : KeyInRange keyval)
    (stored : StoredString memory strval text)
    (granted : (kernel.kmalloc (text.length + 1)).isSome = true) :
    printedBy kernel memory strval keyval =
      some (strBytes (text.map (increased keyval))) := by
  have measured := stored.measured documented
  have read : readable memory strval (kernel.strnlenUser memory strval 1024) = text ++ [0] := by
    rw [measured, stored.held]
  obtain ⟨outcome, run, _, _, _, shown⟩ := s2Encrypt_delimited documented inRange
    (measured ▸ granted) (stored.delimited documented) read
  rw [printedBy, run, Option.bind_some, shown, strBytes_terminated,
    strBytes_eq_self stored.nulFree]

/-- The print reverses to the string when none of its bytes wraps, and is then the print of
no other such string. -/
theorem printedBy_reverses_iff (documented : kernel.Documented)
    (allocates : ∀ size ≤ 1024, (kernel.kmalloc size).isSome = true)
    (inRange : KeyInRange keyval) (stored : StoredString memory strval text) :
    ((∃ printed, printedBy kernel memory strval keyval = some printed ∧
        Reverses keyval text printed) ↔ NoneWraps keyval text) ∧
      ∀ otherMemory otherStrval other, StoredString otherMemory otherStrval other →
        NoneWraps keyval text → NoneWraps keyval other →
        printedBy kernel memory strval keyval =
          printedBy kernel otherMemory otherStrval keyval → text = other := by
  have shown := printedBy_stored documented inRange stored (allocates _ stored.short)
  constructor
  · rw [shown, ← reverses_iff inRange stored.nulFree]
    constructor
    · intro printed
      obtain ⟨_, same, reverses⟩ := printed
      cases same
      exact reverses
    · exact fun reverses => ⟨_, rfl, reverses⟩
  · intro otherMemory otherStrval other otherStored unwrapped otherUnwrapped same
    rw [shown, printedBy_stored documented inRange otherStored
      (allocates _ otherStored.short)] at same
    have reverses := (reverses_iff inRange stored.nulFree).mpr unwrapped
    rw [Option.some.inj same] at reverses
    exact reverses.unique ((reverses_iff inRange otherStored.nulFree).mpr otherUnwrapped)

theorem sampleKernel_allocates :
    ∀ size ≤ 1024, (sampleKernel.kmalloc size).isSome = true := by
  intro size small
  have within : size ≤ 2 ^ 22 := Nat.le_trans small (by decide)
  simp only [sampleKernel, if_pos within, Option.isSome_some]

theorem storedString_hi : StoredString (memoryOf [104, 105]) 0 [104, 105] where
  held := rfl
  nulFree := by decide
  short := by decide

theorem printedBy_reverses_iff_hi :
    ((∃ printed, printedBy sampleKernel (memoryOf [104, 105]) 0 5 = some printed ∧
        Reverses 5 [104, 105] printed) ↔ NoneWraps 5 [104, 105]) ∧
      ∀ otherMemory otherStrval other, StoredString otherMemory otherStrval other →
        NoneWraps 5 [104, 105] → NoneWraps 5 other →
        printedBy sampleKernel (memoryOf [104, 105]) 0 5 =
          printedBy sampleKernel otherMemory otherStrval 5 → [104, 105] = other :=
  printedBy_reverses_iff sampleKernel_documented sampleKernel_allocates (by decide)
    storedString_hi

/-- With the key 1 the bytes 255 and 65 are printed as an empty string. -/
theorem printedBy_reverses_fails :
    sampleKernel.Documented ∧ StoredString (memoryOf [255, 65]) 0 [255, 65] ∧
      printedBy sampleKernel (memoryOf [255, 65]) 0 1 = some [] ∧
      ¬ ∃ printed, printedBy sampleKernel (memoryOf [255, 65]) 0 1 = some printed ∧
        Reverses 1 [255, 65] printed := by
  have empty : printedBy sampleKernel (memoryOf [255, 65]) 0 1 = some [] := by decide +kernel
  refine ⟨sampleKernel_documented, ⟨rfl, by decide, by decide⟩, empty, ?_⟩
  intro satisfied
  obtain ⟨printed, same, length, _⟩ := satisfied
  rw [empty] at same
  cases same
  cases length

end LKP.Proj1
