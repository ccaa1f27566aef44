import LKP.S2fs.FileSystem

/-
The names that `recursive_add` gives, and the pid that a read makes of a name.

`snprintf` has room for nine characters, more than a pid needs; so `kstrtoint` gets
the whole number back.
-/

set_option autoImplicit false

namespace LKP.S2fs

def fileName (pid : Int) : List Char := snprintf 10 (percentI pid)

/-- The pids of a running kernel. -/
def IsPid (pid : Int) : Prop := 0 ≤ pid ∧ pid ≤ 4194304

theorem percentI_pid {pid : Int} (isPid : IsPid pid) :
    percentI pid = Nat.toDigits 10 pid.toNat := if_neg (Int.not_lt.mpr isPid.1)

/-- Ten bytes are enough for a pid. -/
theorem fileName_pid {pid : Int} (isPid : IsPid pid) :
    fileName pid = Nat.toDigits 10 pid.toNat := by
  obtain ⟨lower, upper⟩ := isPid
  have short : (Nat.toDigits 10 pid.toNat).length ≤ 9 := by
    apply (Nat.length_toDigits_le_iff (by omega) (by omega)).mpr
    omega
  rw [fileName, snprintf, percentI_pid ⟨lower, upper⟩]
  exact List.take_of_length_le short

theorem kstrtoint_fileName {pid : Int} (isPid : IsPid pid) :
    kstrtoint (fileName pid) = some pid := by
  obtain ⟨lower, upper⟩ := isPid
  rw [fileName_pid ⟨lower, upper⟩]
  have digits : ∀ char ∈ Nat.toDigits 10 pid.toNat, char.isDigit = true :=
    fun char member => Nat.isDigit_of_mem_toDigits (by omega) (by omega) member
  have noSign : ∀ sign : Char, sign.isDigit = false →
      (Nat.toDigits 10 pid.toNat).head? ≠ some sign := by
    intro sign notDigit first
    have digit := digits sign (List.mem_of_head? first)
    rw [notDigit] at digit
    cases digit
  have noNewline : (Nat.toDigits 10 pid.toNat).getLast? ≠ some '\n' := by
    intro last
    have digit := digits '\n' (List.mem_of_getLast? last)
    exact absurd digit (by decide)
  have some : Nat.toDigits 10 pid.toNat ≠ [] := Nat.toDigits_ne_nil
  have allDigits : (Nat.toDigits 10 pid.toNat).all Char.isDigit = true :=
    List.all_eq_true.mpr digits
  have minus := noSign '-' (by decide)
  have plus := noSign '+' (by decide)
  have value : (Nat.ofDigitChars 10 (Nat.toDigits 10 pid.toNat) 0 : Int) = pid := by
    rw [Nat.ofDigitChars_ten_toDigits]
    exact Int.toNat_of_nonneg lower
  have range : -2 ^ 31 ≤ pid ∧ pid < 2 ^ 31 := by omega
  simp only [kstrtoint, minus, plus, or_self, if_false, noNewline, some, allDigits,
    Bool.true_eq_false, value, if_pos range]

def pidOf (name : List Char) : Int := (kstrtoint name).getD 0

theorem pidOf_fileName {pid : Int} (isPid : IsPid pid) : pidOf (fileName pid) = pid := by
  rw [pidOf, kstrtoint_fileName isPid]
  rfl

theorem fileName_injective {left right : Int} (leftPid : IsPid left) (rightPid : IsPid right)
    (same : fileName left = fileName right) : left = right := by
  rw [← pidOf_fileName leftPid, same, pidOf_fileName rightPid]

/-- A name fits into `d_iname`. -/
theorem fileName_short (pid : Int) : (fileName pid).length < 32 := by
  rw [fileName, snprintf, List.length_take]
  omega

end LKP.S2fs
