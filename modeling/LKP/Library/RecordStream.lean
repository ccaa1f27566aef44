import Mathlib

/-
Records of fixed size on a byte stream.

A codec of a record type is a pair of functions that carry their own round trip;
codecs of words, pairs and arrays are put together to the codec of a struct.  The
second half is about a stream of such records and a receiver that overlays the
front of its buffer with whatever one call delivers.
-/

set_option autoImplicit false

namespace LKP.RecordStream

/-! ### Little-endian words -/

def littleEndian : Nat → Nat → List UInt8
  | 0, _ => []
  | width + 1, number => UInt8.ofNat number :: littleEndian width (number / 256)

def bytesValue : List UInt8 → Nat
  | [] => 0
  | byte :: rest => byte.toNat + 256 * bytesValue rest

@[simp] theorem littleEndian_length (width number : Nat) :
    (littleEndian width number).length = width := by
  induction width generalizing number with
  | zero => rfl
  | succ width ih => simp only [littleEndian, List.length_cons, ih]

theorem bytesValue_littleEndian (width number : Nat) (fits : number < 256 ^ width) :
    bytesValue (littleEndian width number) = number := by
  induction width generalizing number with
  | zero =>
      have zero : number = 0 := by simpa using fits
      exact zero.symm
  | succ width ih =>
      have quotient : number / 256 < 256 ^ width := by
        apply Nat.div_lt_of_lt_mul
        rwa [Nat.pow_succ, Nat.mul_comm] at fits
      have low : (UInt8.ofNat number).toNat = number % 256 := UInt8.toNat_ofNat'
      simp only [littleEndian, bytesValue, ih _ quotient, low]
      omega

/-! ### Codecs -/

/-- A way to lay a record out in `size` bytes and to read it back. -/
structure Codec (Record : Type) where
  size : Nat
  encode : Record → List UInt8
  decode : List UInt8 → Record
  length_encode : ∀ record, (encode record).length = size
  decode_encode : ∀ record, decode (encode record) = record

namespace Codec

variable {Record First Second : Type}

def word (width : Nat) : Codec (BitVec (8 * width)) where
  size := width
  encode number := littleEndian width number.toNat
  decode bytes := BitVec.ofNat (8 * width) (bytesValue bytes)
  length_encode number := littleEndian_length width number.toNat
  decode_encode number := by
    have fits : number.toNat < 256 ^ width := by
      have bound := number.isLt
      rwa [Nat.pow_mul] at bound
    rw [bytesValue_littleEndian _ _ fits, BitVec.ofNat_toNat, BitVec.setWidth_eq]

def pair (first : Codec First) (second : Codec Second) : Codec (First × Second) where
  size := first.size + second.size
  encode record := first.encode record.1 ++ second.encode record.2
  decode bytes := (first.decode (bytes.take first.size), second.decode (bytes.drop first.size))
  length_encode record := by
    rw [List.length_append, first.length_encode, second.length_encode]
  decode_encode record := by
    rw [List.take_left' (first.length_encode _), List.drop_left' (first.length_encode _),
      first.decode_encode, second.decode_encode]

def map (codec : Codec First) (pack : First → Second) (unpack : Second → First)
    (inverse : ∀ record, pack (unpack record) = record) : Codec Second where
  size := codec.size
  encode record := codec.encode (unpack record)
  decode bytes := pack (codec.decode bytes)
  length_encode record := codec.length_encode _
  decode_encode record := by rw [codec.decode_encode, inverse]

variable (codec : Codec Record)

theorem length_flatMap (records : List Record) :
    (records.flatMap codec.encode).length = codec.size * records.length := by
  induction records with
  | nil => rfl
  | cons record rest ih =>
      rw [List.flatMap_cons, List.length_append, codec.length_encode, ih, List.length_cons,
        Nat.mul_succ, Nat.add_comm]

/-- The record at `index` of a stream of records is found at `index * size`. -/
theorem decode_at (records : List Record) (index : Nat) (within : index < records.length) :
    codec.decode (((records.flatMap codec.encode).drop (index * codec.size)).take codec.size) =
      records[index] := by
  induction records generalizing index with
  | nil => exact absurd within (Nat.not_lt_zero index)
  | cons record rest ih =>
      cases index with
      | zero =>
          rw [Nat.zero_mul, List.drop_zero, List.flatMap_cons,
            List.take_left' (codec.length_encode record), codec.decode_encode]
          rfl
      | succ index =>
          have passed : (index + 1) * codec.size =
              (codec.encode record).length + index * codec.size := by
            rw [codec.length_encode, Nat.succ_mul, Nat.add_comm]
          rw [List.flatMap_cons, passed, List.drop_length_add_append, List.getElem_cons_succ]
          exact ih index (Nat.lt_of_succ_lt_succ within)

def array (count : Nat) : Codec (Fin count → Record) where
  size := codec.size * count
  encode records := (List.ofFn records).flatMap codec.encode
  decode bytes index := codec.decode ((bytes.drop (index * codec.size)).take codec.size)
  length_encode records := by rw [codec.length_flatMap, List.length_ofFn]
  decode_encode records := by
    funext index
    have within : index.val < (List.ofFn records).length := by
      rw [List.length_ofFn]
      exact index.isLt
    rw [codec.decode_at _ _ within, List.getElem_ofFn]

end Codec

/-! ### Receiving -/

structure ReceiveBuffer (size : Nat) where
  bytes : List UInt8
  bytes_length : bytes.length = size

/-- A call delivers to the front of the buffer; the bytes behind keep what they were. -/
def ReceiveBuffer.deliver {size : Nat} (buffer : ReceiveBuffer size) (fresh : List UInt8) :
    ReceiveBuffer size where
  bytes := fresh.take size ++ buffer.bytes.drop fresh.length
  bytes_length := by
    rw [List.length_append, List.length_take, List.length_drop, buffer.bytes_length]
    omega

theorem ReceiveBuffer.deliver_whole {size : Nat} (buffer : ReceiveBuffer size)
    {fresh : List UInt8} (fills : fresh.length = size) : (buffer.deliver fresh).bytes = fresh := by
  have taken : fresh.take size = fresh := List.take_of_length_le (Nat.le_of_eq fills)
  have dropped : buffer.bytes.drop fresh.length = [] :=
    List.drop_of_length_le (by rw [buffer.bytes_length, fills])
  change fresh.take size ++ buffer.bytes.drop fresh.length = fresh
  rw [taken, dropped, List.append_nil]

/-- Calls that deliver no more than `size` bytes each, and `size` bytes a call in all,
deliver `size` bytes each. -/
theorem full_of_sum {size : Nat} {counts : List Nat} (bounded : ∀ count ∈ counts, count ≤ size)
    (total : counts.sum = size * counts.length) : ∀ count ∈ counts, count = size := by
  induction counts with
  | nil =>
      intro count member
      exact absurd member (by simp)
  | cons first rest ih =>
      have firstBound : first ≤ size := bounded first List.mem_cons_self
      have restBounded : ∀ count ∈ rest, count ≤ size :=
        fun count member => bounded count (List.mem_cons_of_mem first member)
      have restBound : rest.sum ≤ rest.length * size :=
        List.sum_le_card_nsmul rest size restBounded
      have whole : first + rest.sum = rest.length * size + size := by
        rw [List.sum_cons, List.length_cons, Nat.mul_succ, Nat.mul_comm] at total
        exact total
      intro count member
      cases member with
      | head => omega
      | tail _ later =>
          have restTotal : rest.sum = size * rest.length := by
            rw [Nat.mul_comm]
            omega
          exact ih restBounded restTotal count later

end LKP.RecordStream
