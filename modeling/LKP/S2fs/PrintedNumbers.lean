import LKP.S2fs.FileSystem

/-
Numbers as the kernel prints them, in bytes.

A printed number has no byte but digits and a sign, so that it ends where anything
else comes; it determines the number, and its width is bounded by that of the type.
-/

set_option autoImplicit false

namespace LKP.S2fs

def ascii (text : List Char) : List UInt8 := text.map (fun char => UInt8.ofNat char.toNat)

/-- The conversion `%d`, and the longer ones, for a number of their type. -/
def percentD (number : Int) : List UInt8 := ascii (percentI number)

/-! ### The bytes of a number -/

theorem percentI_chars (number : Int) :
    ∀ char ∈ percentI number, char = '-' ∨ char.isDigit = true := by
  intro char member
  have digits : ∀ magnitude : Nat, char ∈ Nat.toDigits 10 magnitude → char.isDigit = true :=
    fun magnitude among => Nat.isDigit_of_mem_toDigits (by omega) (by omega) among
  rw [percentI] at member
  split at member
  · rcases List.mem_cons.mp member with minus | among
    · exact .inl minus
    · exact .inr (digits _ among)
  · exact .inr (digits _ member)

theorem isDigit_bounds {char : Char} (digit : char.isDigit = true) :
    48 ≤ char.toNat ∧ char.toNat ≤ 57 := by
  rw [Char.isDigit, Bool.and_eq_true, decide_eq_true_eq, decide_eq_true_eq] at digit
  exact digit

/-- A printed number consists of digits and a sign. -/
theorem percentD_bytes (number : Int) :
    ∀ byte ∈ percentD number, byte = 45 ∨ 48 ≤ byte.toNat ∧ byte.toNat ≤ 57 := by
  intro byte member
  obtain ⟨char, among, rfl⟩ := List.mem_map.mp member
  rcases percentI_chars number char among with rfl | digit
  · exact .inl rfl
  · obtain ⟨lower, upper⟩ := isDigit_bounds digit
    have small : char.toNat < 256 := by omega
    rw [UInt8.toNat_ofNat_of_lt' small]
    exact .inr ⟨lower, upper⟩

theorem not_mem_percentD (number : Int) {byte : UInt8} (notSign : byte ≠ 45)
    (notDigit : byte.toNat < 48 ∨ 57 < byte.toNat) : byte ∉ percentD number := by
  intro member
  rcases percentD_bytes number byte member with sign | ⟨lower, upper⟩
  · exact notSign sign
  · omega

/-! ### The number back -/

theorem percentI_injective {left right : Int} (same : percentI left = percentI right) :
    left = right := by
  have value : ∀ magnitude, Nat.ofDigitChars 10 (Nat.toDigits 10 magnitude) 0 = magnitude :=
    fun magnitude => Nat.ofDigitChars_ten_toDigits
  have noSign : ∀ magnitude others, Nat.toDigits 10 magnitude ≠ '-' :: others := by
    intro magnitude others equal
    have digit : ('-').isDigit = true := Nat.isDigit_of_mem_toDigits (b := 10) (n := magnitude)
      (by omega) (by omega) (by rw [equal]; exact List.mem_cons_self)
    exact absurd digit (by decide)
  rw [percentI, percentI] at same
  split at same
  · split at same
    · have magnitudes :=
        congrArg (fun digits => Nat.ofDigitChars 10 digits 0) (List.cons.inj same).2
      simp only [value] at magnitudes
      omega
    · exact absurd same.symm (noSign _ _)
  · split at same
    · exact absurd same (noSign _ _)
    · have magnitudes := congrArg (fun digits => Nat.ofDigitChars 10 digits 0) same
      simp only [value] at magnitudes
      omega

theorem ascii_injective {left right : List Char} (leftAscii : ∀ char ∈ left, char.toNat < 256)
    (rightAscii : ∀ char ∈ right, char.toNat < 256) (same : ascii left = ascii right) :
    left = right := by
  have codes := congrArg (List.map UInt8.toNat) same
  rw [ascii, ascii, List.map_map, List.map_map] at codes
  have kept : ∀ text : List Char, (∀ char ∈ text, char.toNat < 256) →
      text.map (UInt8.toNat ∘ fun char => UInt8.ofNat char.toNat) = text.map Char.toNat := by
    intro text small
    apply List.map_congr_left
    intro char member
    exact UInt8.toNat_ofNat_of_lt' (small char member)
  rw [kept left leftAscii, kept right rightAscii] at codes
  have injective : Function.Injective Char.toNat := by
    intro first second equal
    exact Char.toNat_inj.mp equal
  exact injective.list_map codes

theorem percentD_injective {left right : Int} (same : percentD left = percentD right) :
    left = right := by
  have small : ∀ number : Int, ∀ char ∈ percentI number, char.toNat < 256 := by
    intro number char member
    rcases percentI_chars number char member with rfl | digit
    · decide
    · have bounds := isDigit_bounds digit
      omega
  exact percentI_injective (ascii_injective (small left) (small right) same)

/-! ### The width of a number -/

theorem ascii_length (text : List Char) : (ascii text).length = text.length := List.length_map _

/-- A sign and as many digits as the magnitude needs. -/
theorem percentD_length {number : Int} {digits : Nat} (some : 0 < digits)
    (fits : number.natAbs < 10 ^ digits) : (percentD number).length ≤ digits + 1 := by
  rw [percentD, ascii_length, percentI]
  split
  · have bound := (Nat.length_toDigits_le_iff (b := 10) (by omega) some).mpr fits
    rw [List.length_cons]
    omega
  · have same : number.toNat = number.natAbs := by omega
    have bound := (Nat.length_toDigits_le_iff (b := 10) (by omega) some).mpr fits
    rw [same]
    omega

theorem percentD_int (number : Int32) : (percentD number.toInt).length ≤ 11 := by
  have lower := number.le_toInt
  have upper := number.toInt_lt
  exact percentD_length (by omega) (by omega)

theorem percentD_long (number : Int64) : (percentD number.toInt).length ≤ 20 := by
  have lower := number.le_toInt
  have upper := number.toInt_lt
  exact percentD_length (by omega) (by omega)

end LKP.S2fs
