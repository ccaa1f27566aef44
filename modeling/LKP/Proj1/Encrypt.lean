import LKP.Library.CBuffer
import LKP.Library.CIntegers

/-
The system call `s2_encrypt`.

The string is copied from the user, each byte up to the NUL is increased by the key, and
the result is printed.  The loop looks for the NUL in the copy alone, and the buffer is
given back on one path of three.  `none` is an access outside the buffer.
-/

set_option autoImplicit false

namespace LKP.Proj1

open CBuffer CIntegers

/-! ### The calls into the kernel -/

/-- The memory of the caller: the byte at an address, if it can be read. -/
abbrev UserMemory := Nat → Option UInt8

/-- At most `count` bytes from an address on, as far as they can be read. -/
def readable (memory : UserMemory) : Nat → Nat → List UInt8
  | _, 0 => []
  | address, count + 1 =>
      match memory address with
      | none => []
      | some byte => byte :: readable memory (address + 1) count

structure Kernel where
  strnlenUser : UserMemory → Nat → Nat → Nat
  /-- The block that is handed out, with what it holds; null on failure. -/
  kmalloc : Nat → Option (List UInt8)

def Unreadable (memory : UserMemory) (strval limit : Nat) : Prop :=
  0 ∉ readable memory strval limit ∧ (readable memory strval limit).length < limit

structure Kernel.Documented (kernel : Kernel) : Prop where
  terminated : ∀ memory strval limit, 0 ∈ readable memory strval limit →
    kernel.strnlenUser memory strval limit =
      (strBytes (readable memory strval limit)).length + 1
  tooLong : ∀ memory strval limit, 0 ∉ readable memory strval limit →
    (readable memory strval limit).length = limit →
    limit < kernel.strnlenUser memory strval limit
  unreadable : ∀ memory strval limit, Unreadable memory strval limit →
    kernel.strnlenUser memory strval limit = 0
  allocated : ∀ size block, kernel.kmalloc size = some block →
    block.length = size ∧ size < 2 ^ 31

/-- `copy_from_user`: the number of bytes that are not copied, and the destination, in which
zeros stand for them. -/
def copyFromUser (memory : UserMemory) (block : List UInt8) (strval length : Nat) :
    Nat × List UInt8 :=
  let bytes := readable memory strval length
  let left := length - bytes.length
  (left, bytes ++ List.replicate left 0 ++ block.drop length)

/-! ### The system call -/

inductive Message
  | helloWorld (length : Int32) (encryptKey : UInt32)
  | yay
  | boo
  | string (text : List UInt8) (encryptKey : UInt32)
  | outOfBounds (encryptKey : UInt32)

/-- What the call leaves: its result, the buffer, how often `kfree` was called for it, and
the messages. -/
structure Outcome where
  returned : Int
  userData : Option (List UInt8)
  frees : Nat
  messages : List Message

/-- `user_data[i] += encrypt_key`: the sum is made of unsigned numbers and cut to a `char`. -/
def addKey (encryptKey : UInt32) (byte : UInt8) : UInt8 := (byte.toUInt32 + encryptKey).toUInt8

def encryptLoop (encryptKey : UInt32) : List UInt8 → Option (List UInt8)
  | [] => none
  | byte :: rest =>
      if byte ≠ 0 then
        (encryptLoop encryptKey rest).map (fun later => addKey encryptKey byte :: later)
      else some (byte :: rest)

/-- `SYSCALL_DEFINE2(s2_encrypt, …)` -/
def s2Encrypt (kernel : Kernel) (memory : UserMemory) (strval : Nat) (keyval : Int32) :
    Option Outcome :=
  let encryptKey := keyval.toUInt32
  let length := kernel.strnlenUser memory strval 1024
  let userData := kernel.kmalloc length
  if encryptKey > 0 ∧ encryptKey < 6 then
    let hello := Message.helloWorld (Int32.ofNat length) encryptKey
    match userData with
    -- the copy to a null pointer
    | none => none
    | some block =>
        let (left, userData) := copyFromUser memory block strval length
        let retval := UInt32.ofNat left
        if retval = 0 then
          (encryptLoop encryptKey userData).map (fun userData =>
            { returned := 0, userData := some userData, frees := 1,
              messages := [hello, .yay, .string (strBytes userData) encryptKey] })
        else
          some { returned := -14, userData := some userData, frees := 0,
                 messages := [hello, .boo] }
  else
    some { returned := -22, userData := userData, frees := 0,
           messages := [.outOfBounds encryptKey] }

/-- The string that is printed behind "String is". -/
def Outcome.printedString (outcome : Outcome) : Option (List UInt8) :=
  outcome.messages.findSome? fun message =>
    match message with
    | .string text _ => some text
    | _ => none

/-! ### What is expected of it -/

def KeyInRange (keyval : Int32) : Prop := 1 ≤ keyval.toInt ∧ keyval.toInt ≤ 5

instance (keyval : Int32) : Decidable (KeyInRange keyval) :=
  inferInstanceAs (Decidable (1 ≤ keyval.toInt ∧ keyval.toInt ≤ 5))

def increased (keyval : Int32) (byte : UInt8) : UInt8 :=
  UInt8.ofInt ((byte.toNat : Int) + keyval.toInt)

def decreased (keyval : Int32) (byte : UInt8) : UInt8 :=
  UInt8.ofInt ((byte.toNat : Int) - keyval.toInt)

def encrypted (keyval : Int32) (bytes : List UInt8) : List UInt8 :=
  (strBytes bytes).map (increased keyval) ++ bytes.drop (strBytes bytes).length

structure Correct (kernel : Kernel) (memory : UserMemory) (strval : Nat) (keyval : Int32)
    (outcome : Outcome) : Prop where
  invalid : outcome.returned = -22 ↔ ¬ KeyInRange keyval
  fault : KeyInRange keyval → (outcome.returned = -14 ↔ Unreadable memory strval 1024)
  done : KeyInRange keyval → ¬ Unreadable memory strval 1024 →
    outcome.returned = 0 ∧ outcome.userData =
      some (encrypted keyval
        (readable memory strval (kernel.strnlenUser memory strval 1024)))
  freed : outcome.frees = 1

def Delimited (kernel : Kernel) (memory : UserMemory) (strval : Nat) : Prop :=
  let length := kernel.strnlenUser memory strval 1024
  (readable memory strval length).length = length ∧ 0 ∈ readable memory strval length

/-! ### What can be read -/

theorem readable_length_le (memory : UserMemory) (address count : Nat) :
    (readable memory address count).length ≤ count := by
  induction count generalizing address with
  | zero => exact Nat.le_refl 0
  | succ count ih =>
      rw [readable]
      cases memory address with
      | none => exact Nat.zero_le _
      | some byte => exact Nat.succ_le_succ (ih (address + 1))

theorem readable_take (memory : UserMemory) (address : Nat) {count more : Nat}
    (fewer : count ≤ more) :
    (readable memory address more).take count = readable memory address count := by
  induction count generalizing address more with
  | zero => rfl
  | succ count ih =>
      obtain ⟨more, rfl⟩ : ∃ smaller, more = smaller + 1 := ⟨more - 1, by omega⟩
      rw [readable, readable]
      cases memory address with
      | none => rfl
      | some byte =>
          exact congrArg (List.cons byte) (ih (address + 1) (Nat.le_of_succ_le_succ fewer))

/-! ### The key -/

theorem keyInRange_iff (keyval : Int32) :
    (keyval.toUInt32 > 0 ∧ keyval.toUInt32 < 6) ↔ KeyInRange keyval := by
  have unsigned := unsignedInt_toNat keyval
  have lower := keyval.le_toInt
  have upper := keyval.toInt_lt
  rw [KeyInRange, gt_iff_lt, UInt32.lt_iff_toNat_lt, UInt32.lt_iff_toNat_lt]
  simp only [UInt32.toNat_ofNat]
  omega

theorem key_toNat {keyval : Int32} (inRange : KeyInRange keyval) :
    (keyval.toUInt32.toNat : Int) = keyval.toInt := by
  obtain ⟨lower, upper⟩ := inRange
  rw [unsignedInt_toNat]
  omega

theorem ofInt_toNat (number : Int) : ((UInt8.ofInt number).toNat : Int) = number % 256 := by
  have bits : (UInt8.ofInt number).toNat = (number % 256).toNat := by
    rw [UInt8.ofInt, UInt8.toNat_ofNat']
    omega
  rw [bits]
  omega

theorem addKey_inRange {keyval : Int32} (inRange : KeyInRange keyval) :
    addKey keyval.toUInt32 = increased keyval := by
  funext byte
  have key := key_toNat inRange
  have sum : (addKey keyval.toUInt32 byte).toNat =
      (byte.toNat + keyval.toUInt32.toNat) % 256 := by
    simp [addKey]
  have same : ((addKey keyval.toUInt32 byte).toNat : Int) = (increased keyval byte).toNat := by
    rw [increased, ofInt_toNat, sum]
    omega
  exact UInt8.toNat_inj.mp (Int.ofNat_inj.mp same)

/-! ### The loop -/

theorem encryptLoop_nul (encryptKey : UInt32) {bytes : List UInt8} (nul : (0 : UInt8) ∈ bytes) :
    encryptLoop encryptKey bytes =
      some ((strBytes bytes).map (addKey encryptKey) ++
        bytes.drop (strBytes bytes).length) := by
  induction bytes with
  | nil => exact absurd nul List.not_mem_nil
  | cons byte rest ih =>
      rw [encryptLoop, strBytes_cons]
      by_cases first : byte = 0
      · rw [if_neg (not_not_intro first), if_pos first]
        rfl
      · have later := ih ((List.mem_cons.mp nul).resolve_left (fun same => first same.symm))
        rw [if_pos first, if_neg first, later]
        rfl

/-- Without a NUL the loop leaves the buffer. -/
theorem encryptLoop_nulFree (encryptKey : UInt32) {bytes : List UInt8}
    (nulFree : (0 : UInt8) ∉ bytes) : encryptLoop encryptKey bytes = none := by
  induction bytes with
  | nil => rfl
  | cons byte rest ih =>
      have present : byte ≠ 0 := fun same => nulFree (same ▸ List.mem_cons_self)
      have later := ih (fun member => nulFree (List.mem_cons_of_mem byte member))
      rw [encryptLoop, if_pos present, later]
      rfl

/-! ### The call -/

variable {kernel : Kernel} {memory : UserMemory} {strval : Nat} {keyval : Int32}

theorem copyFromUser_eq (block : List UInt8) {length : Nat} (sized : block.length = length) :
    copyFromUser memory block strval length =
      (length - (readable memory strval length).length,
        readable memory strval length ++
          List.replicate (length - (readable memory strval length).length) 0) := by
  rw [copyFromUser, List.drop_eq_nil_of_le (Nat.le_of_eq sized), List.append_nil]

/-- A refused key leaks the buffer. -/
theorem s2Encrypt_outOfRange (outside : ¬ KeyInRange keyval) {outcome : Outcome}
    (run : s2Encrypt kernel memory strval keyval = some outcome) : outcome.frees = 0 := by
  rw [← keyInRange_iff] at outside
  unfold s2Encrypt at run
  rw [if_neg outside] at run
  cases run
  rfl

theorem s2Encrypt_inRange (documented : kernel.Documented) (inRange : KeyInRange keyval)
    {block bytes : List UInt8} {length : Nat} (granted : kernel.kmalloc length = some block)
    (measured : kernel.strnlenUser memory strval 1024 = length)
    (read : readable memory strval length = bytes) :
    s2Encrypt kernel memory strval keyval =
      if bytes.length = length then
        (encryptLoop keyval.toUInt32 bytes).map (fun userData =>
          { returned := 0, userData := some userData, frees := 1,
            messages :=
              [.helloWorld (Int32.ofNat length) keyval.toUInt32, .yay,
                .string (strBytes userData) keyval.toUInt32] })
      else
        some { returned := -14,
               userData := some (bytes ++ List.replicate (length - bytes.length) 0),
               frees := 0,
               messages := [.helloWorld (Int32.ofNat length) keyval.toUInt32, .boo] } := by
  obtain ⟨sized, small⟩ := documented.allocated length block granted
  have atMost : bytes.length ≤ length := read ▸ readable_length_le memory strval length
  have narrow : length - bytes.length < 2 ^ 31 := by omega
  have retval : UInt32.ofNat (length - bytes.length) = 0 ↔ bytes.length = length := by
    rw [← UInt32.toNat_inj,
      UInt32.toNat_ofNat_of_lt' (Nat.lt_of_lt_of_le narrow (by decide))]
    show length - bytes.length = 0 ↔ _
    omega
  unfold s2Encrypt
  rw [if_pos ((keyInRange_iff keyval).mpr inRange), measured, granted]
  simp only [copyFromUser_eq block sized, read]
  by_cases whole : bytes.length = length
  · rw [if_pos (retval.mpr whole), if_pos whole, whole, Nat.sub_self, List.replicate_zero,
      List.append_nil]
  · rw [if_neg (fun none => whole (retval.mp none)), if_neg whole]

theorem Delimited.readableString (documented : kernel.Documented)
    (delimited : Delimited kernel memory strval) : ¬ Unreadable memory strval 1024 := by
  intro unreadable
  have nul := delimited.2
  rw [documented.unreadable memory strval 1024 unreadable] at nul
  exact List.not_mem_nil nul

theorem s2Encrypt_delimited (documented : kernel.Documented) (inRange : KeyInRange keyval)
    (granted : (kernel.kmalloc (kernel.strnlenUser memory strval 1024)).isSome = true)
    (delimited : Delimited kernel memory strval) {bytes : List UInt8}
    (read : readable memory strval (kernel.strnlenUser memory strval 1024) = bytes) :
    ∃ outcome, s2Encrypt kernel memory strval keyval = some outcome ∧
      outcome.returned = 0 ∧ outcome.frees = 1 ∧
      outcome.userData = some (encrypted keyval bytes) ∧
      outcome.printedString = some (strBytes ((strBytes bytes).map (increased keyval))) := by
  obtain ⟨block, granted⟩ := Option.isSome_iff_exists.mp granted
  obtain ⟨whole, nul⟩ := delimited
  rw [read] at whole nul
  have looped : encryptLoop keyval.toUInt32 bytes = some (encrypted keyval bytes) := by
    rw [encryptLoop_nul keyval.toUInt32 nul, addKey_inRange inRange]
    rfl
  have shown : strBytes (encrypted keyval bytes) =
      strBytes ((strBytes bytes).map (increased keyval)) := by
    obtain ⟨rest, behind⟩ := drop_strBytes nul
    rw [encrypted, behind, strBytes_terminated]
  have run := s2Encrypt_inRange documented inRange granted rfl read
  rw [if_pos whole, looped] at run
  exact ⟨_, run, rfl, rfl, rfl, congrArg some shown⟩

/-- A call that returns leaks the buffer, or has found a NUL in it. -/
theorem delimited_of_freed (documented : kernel.Documented) (inRange : KeyInRange keyval)
    (granted : (kernel.kmalloc (kernel.strnlenUser memory strval 1024)).isSome = true)
    {outcome : Outcome} (run : s2Encrypt kernel memory strval keyval = some outcome)
    (freed : outcome.frees = 1) : Delimited kernel memory strval := by
  obtain ⟨block, granted⟩ := Option.isSome_iff_exists.mp granted
  rw [s2Encrypt_inRange documented inRange granted rfl rfl] at run
  split at run
  · rename_i whole
    by_cases nul : 0 ∈ readable memory strval (kernel.strnlenUser memory strval 1024)
    · exact ⟨whole, nul⟩
    · rw [encryptLoop_nulFree _ nul] at run
      cases run
  · cases run
    cases freed

/-- The call does what is expected when the key is accepted and the copy has a NUL. -/
theorem s2Encrypt_correct_iff (documented : kernel.Documented)
    (granted : (kernel.kmalloc (kernel.strnlenUser memory strval 1024)).isSome = true) :
    (∃ outcome, s2Encrypt kernel memory strval keyval = some outcome ∧
        Correct kernel memory strval keyval outcome) ↔
      KeyInRange keyval ∧ Delimited kernel memory strval := by
  constructor
  · intro satisfied
    obtain ⟨outcome, run, correct⟩ := satisfied
    have inRange : KeyInRange keyval := by
      by_contra outside
      have leaked := s2Encrypt_outOfRange outside run
      rw [correct.freed] at leaked
      cases leaked
    exact ⟨inRange, delimited_of_freed documented inRange granted run correct.freed⟩
  · intro condition
    obtain ⟨inRange, delimited⟩ := condition
    obtain ⟨outcome, run, returned, freed, stored, _⟩ :=
      s2Encrypt_delimited documented inRange granted delimited rfl
    have readableString := delimited.readableString documented
    refine ⟨outcome, run, ?_, ?_, fun _ _ => ⟨returned, stored⟩, freed⟩
    · rw [returned]
      exact iff_of_false (by decide) (not_not_intro inRange)
    · intro _
      rw [returned]
      exact iff_of_false (by decide) readableString

/-! ### A kernel -/

def sampleKernel : Kernel where
  strnlenUser memory strval limit :=
    let bytes := readable memory strval limit
    if 0 ∈ bytes then (strBytes bytes).length + 1
    else if bytes.length < limit then 0
    else limit + 1
  kmalloc size := if size ≤ 2 ^ 22 then some (List.replicate size 0) else none

theorem sampleKernel_documented : sampleKernel.Documented where
  terminated := fun _ _ _ nul => if_pos nul
  tooLong := by
    intro memory strval limit nulFree whole
    have measured : sampleKernel.strnlenUser memory strval limit = limit + 1 := by
      simp only [sampleKernel, if_neg nulFree, whole, Nat.lt_irrefl, if_false]
    omega
  unreadable := by
    intro memory strval limit unreadable
    simp only [sampleKernel, if_neg unreadable.1, if_pos unreadable.2]
  allocated := by
    intro size block granted
    simp only [sampleKernel] at granted
    split at granted
    · cases granted
      exact ⟨List.length_replicate, by omega⟩
    · cases granted

def memoryOf (text : List UInt8) : UserMemory := fun address => (text ++ [0])[address]?

theorem s2Encrypt_correct_iff_hi :
    (∃ outcome, s2Encrypt sampleKernel (memoryOf [104, 105]) 0 3 = some outcome ∧
        Correct sampleKernel (memoryOf [104, 105]) 0 3 outcome) ↔
      KeyInRange 3 ∧ Delimited sampleKernel (memoryOf [104, 105]) 0 :=
  s2Encrypt_correct_iff sampleKernel_documented (by decide +kernel)

/-- A key of 6 is refused, and the buffer is not freed. -/
theorem s2Encrypt_correct_fails :
    sampleKernel.Documented ∧
      (sampleKernel.kmalloc (sampleKernel.strnlenUser (memoryOf [104, 105]) 0 1024)).isSome ∧
      ¬ ∃ outcome, s2Encrypt sampleKernel (memoryOf [104, 105]) 0 6 = some outcome ∧
        Correct sampleKernel (memoryOf [104, 105]) 0 6 outcome := by
  refine ⟨sampleKernel_documented, by decide +kernel, ?_⟩
  intro satisfied
  obtain ⟨outcome, run, correct⟩ := satisfied
  have outside : ¬ KeyInRange 6 := by decide
  have leaked := s2Encrypt_outOfRange outside run
  rw [correct.freed] at leaked
  cases leaked

end LKP.Proj1
