import LKP.Library.CIntegers
import LKP.Library.SequentialRead
import LKP.S2fs.TaskInfo

/-
`s2fs_read_file` with the types of the source: an `int` length, a `loff_t` offset and a
`size_t` count.

The offset is compared with the length as signed numbers, the count with what is left as
unsigned ones.  What is left is never negative there, so that reads one after the other
get the text in order, whatever their counts are.
-/

set_option autoImplicit false

namespace LKP.S2fs

open CBuffer CIntegers SequentialRead

/-- A call of `read`: its count, whether `copy_to_user` fails, and what the array `tmp` on the
stack holds before. -/
structure ReadCall where
  count : UInt64
  faulted : Bool
  tmp : Buffer

structure ReadResult where
  returned : Int64
  offset : Int64
  copied : List UInt8

def bytesAt (buffer : Buffer) (offset : Int) (count : Nat) : List UInt8 :=
  (List.range count).map (fun index : Nat => buffer (offset + index))

/-- The count of `s2fs_read_file` after its second comparison, of which both sides are
unsigned. -/
def countLeft (len : Int32) (count : UInt64) (offset : Int64) : UInt64 :=
  let left := (len.toInt64 - offset).toUInt64
  if count > left then left else count

def copyOut (len : Int32) (tmp : Buffer) (count : UInt64) (offset : Int64) (faulted : Bool) :
    ReadResult :=
  if offset > len.toInt64 then ⟨0, offset, []⟩
  else
    let count := countLeft len count offset
    if faulted then ⟨-14, offset, []⟩
    else
      ⟨count.toInt64, (offset.toUInt64 + count).toInt64, bytesAt tmp offset.toInt count.toNat⟩

/-- `pid_input`; a name that is no number leaves it 0. -/
def Dentry.pidInput (dentry : Dentry) : Int := (kstrtoint dentry.dIname).getD 0

def readFile (table : ProcessTable) (dentry : Dentry) (call : ReadCall) (offset : Int64) :
    Option ReadResult :=
  match getTaskInfo table dentry.pidInput call.tmp with
  | none => none
  | some (len, tmp) => some (copyOut len tmp call.count offset call.faulted)

/-- Calls one after the other, with the offset they leave. -/
def readCalls (table : ProcessTable) (dentry : Dentry) :
    Int64 → List ReadCall → Option (List ReadResult × Int64)
  | offset, [] => some ([], offset)
  | offset, call :: rest =>
      match readFile table dentry call offset with
      | none => none
      | some result =>
          match readCalls table dentry result.offset rest with
          | none => none
          | some (results, last) => some (result :: results, last)

/-- The text that `get_task_info` reports for a pid; none if the task is gone, when its length
is -1. -/
inductive Reports (table : ProcessTable) (pid : Int) : List UInt8 → Prop
  | live {taskPid : Nat} {mm : MmStruct}
      (found : table.pidTask (table.findGetPid pid) = some taskPid)
      (mapped : (table.tasks taskPid).mm = some mm) :
      Reports table pid (taskInfoText (table.tasks taskPid)
        (table.tasks (table.tasks taskPid).realParent) mm)
  | gone (unknown : table.findGetPid pid = none) : Reports table pid []

theorem Reports.fits {table : ProcessTable} {pid : Int} {text : List UInt8}
    (reports : Reports table pid text) : text.length < TMPSIZE := by
  cases reports with
  | live found mapped => exact taskInfoText_length _ _ _
  | gone unknown => decide

/-- What `get_task_info` returns: the length of the text that it leaves in `tmp`, or -1. -/
theorem Reports.printed {table : ProcessTable} {pid : Int} {text : List UInt8}
    (reports : Reports table pid text) (data : Buffer) :
    ∃ len tmp, getTaskInfo table pid data = some (len, tmp) ∧
      (len.toInt = text.length ∧ Holds tmp 0 text ∨ len.toInt = -1 ∧ text = []) := by
  have fits := reports.fits
  cases reports with
  | live found mapped =>
      exact ⟨_, _, getTaskInfo_live found mapped data,
        .inl ⟨@snprintfInto_length data _ fits, (snprintfInto_holds fits).left⟩⟩
  | gone unknown => exact ⟨_, _, getTaskInfo_unknown unknown data, .inr ⟨rfl, rfl⟩⟩

/-! ### One call -/

def ReadCall.wanted (call : ReadCall) : Nat := if call.faulted then 0 else call.count.toNat

theorem bytesAt_of_holds {buffer : Buffer} {text : List UInt8} (holds : Holds buffer 0 text)
    {offset count : Nat} (inside : offset + count ≤ text.length) :
    bytesAt buffer offset count = chunk text offset count := by
  apply List.ext_getElem
  · rw [bytesAt, List.length_map, List.length_range, chunk_length]
    omega
  · intro index within _
    rw [bytesAt, List.length_map, List.length_range] at within
    have held := holds (offset + index) (by omega)
    simp only [bytesAt, chunk, List.getElem_map, List.getElem_range, List.getElem_take,
      List.getElem_drop]
    rw [← held]
    congr 1
    omega

/-- The count is cut to what is left of the text. -/
theorem countLeft_toNat {len : Int32} {offset : Int64} {length start : Nat}
    (whole : len.toInt = length) (position : offset.toInt = start) (inside : start ≤ length)
    (count : UInt64) : (countLeft len count offset).toNat = min count.toNat (length - start) := by
  have extended : len.toInt64.toInt = length := by rw [Int32.toInt_toInt64, whole]
  have left : (len.toInt64 - offset).toUInt64.toNat = length - start := by
    have difference := @unsigned_sub len.toInt64 offset (by omega) (by omega)
    omega
  rw [countLeft]
  split
  · rename_i more
    have larger := UInt64.lt_iff_toNat_lt.mp more
    omega
  · rename_i more
    have smaller := UInt64.le_iff_toNat_le.mp (UInt64.not_lt.mp more)
    omega

structure Gets (text : List UInt8) (start count : Nat) (result : ReadResult) : Prop where
  copied : result.copied = chunk text start count
  returned : result.returned.toInt = result.copied.length
  offset : result.offset.toInt = start + result.copied.length

theorem copyOut_inside {text : List UInt8} {len : Int32} {tmp : Buffer}
    (whole : len.toInt = text.length) (holds : Holds tmp 0 text) {offset : Int64} {start : Nat}
    (position : offset.toInt = start) (inside : start ≤ text.length) (count : UInt64) :
    Gets text start count.toNat (copyOut len tmp count offset false) := by
  have notBeyond : ¬ offset > len.toInt64 := by
    rw [gt_iff_lt, Int64.lt_iff_toInt_lt, Int32.toInt_toInt64]
    omega
  have taken := countLeft_toNat whole position inside count
  have bound := len.toInt_lt
  have read : bytesAt tmp offset.toInt (countLeft len count offset).toNat =
      chunk text start count.toNat := by
    rw [position, bytesAt_of_holds holds (by omega), taken, ← List.length_drop, chunk, chunk]
    exact List.take_eq_take_min.symm
  have length : (chunk text start count.toNat).length = (countLeft len count offset).toNat := by
    rw [chunk_length, taken]
  rw [copyOut, if_neg notBeyond, if_neg Bool.false_ne_true]
  constructor
  · exact read
  · change (countLeft len count offset).toInt64.toInt = ((bytesAt _ _ _).length : Int)
    rw [read, length]
    exact signed_of_small (by omega)
  · change (offset.toUInt64 + countLeft len count offset).toInt64.toInt =
      start + ((bytesAt _ _ _).length : Int)
    rw [read, length, signed_add (by omega) (by omega), position]

/-- Past the end there is nothing to get. -/
theorem copyOut_beyond {text : List UInt8} {len : Int32} (tmp : Buffer) {offset : Int64}
    {start : Nat}
    (position : offset.toInt = start) (beyond : len.toInt < start) (outside : text.length ≤ start)
    (count : UInt64) (faulted : Bool) :
    Gets text start count.toNat (copyOut len tmp count offset faulted) := by
  have passed : offset > len.toInt64 := by
    rw [gt_iff_lt, Int64.lt_iff_toInt_lt, Int32.toInt_toInt64]
    omega
  have nothing : chunk text start count.toNat = [] := by
    rw [chunk, List.drop_eq_nil_of_le outside, List.take_nil]
  rw [copyOut, if_pos passed]
  constructor
  · exact nothing.symm
  · rfl
  · rw [position]
    rfl

/-- On numbers without bounds this is what `copyTaskInfo` says. -/
theorem copyOut_refines {text : List UInt8} {len : Int32} {tmp : Buffer}
    (reported : len.toInt = text.length ∧ Holds tmp 0 text ∨ len.toInt = -1 ∧ text = [])
    {offset : Int64} {start : Nat} (position : offset.toInt = start) (count : UInt64)
    (faulted : Bool) :
    copyTaskInfo (len.toInt, text) count.toNat start faulted =
      ((copyOut len tmp count offset faulted).returned.toInt,
        (copyOut len tmp count offset faulted).offset.toInt.toNat,
        (copyOut len tmp count offset faulted).copied) := by
  by_cases beyond : offset > len.toInt64
  · have short : len.toInt < start := by
      rwa [gt_iff_lt, Int64.lt_iff_toInt_lt, Int32.toInt_toInt64, position] at beyond
    rw [copyOut, if_pos beyond, position]
    simp only [copyTaskInfo, if_pos short, Int.toNat_natCast]
    rfl
  · have long : ¬ len.toInt < start := by
      rwa [gt_iff_lt, Int64.lt_iff_toInt_lt, Int32.toInt_toInt64, position] at beyond
    cases faulted with
    | true =>
        rw [copyOut, if_neg beyond, if_pos rfl, position]
        simp only [copyTaskInfo, if_neg long, if_true, Int.toNat_natCast]
        rfl
    | false =>
        rcases reported with ⟨whole, holds⟩ | ⟨negative, _⟩
        · have gets := copyOut_inside whole holds position (by omega) count
          have length := chunk_length text start count.toNat
          rw [← gets.copied] at length
          -- the count that both sides come to
          have cut : (if (count.toNat : Int) > len.toInt - start then (len.toInt - start).toNat
              else count.toNat) = (copyOut len tmp count offset false).copied.length := by
            rw [length]
            split
            · omega
            · omega
          have copied : (copyOut len tmp count offset false).copied =
              (text.drop start).take (copyOut len tmp count offset false).copied.length := by
            rw [length, gets.copied, ← List.length_drop, chunk]
            exact List.take_eq_take_min
          rw [gets.returned, gets.offset]
          simp only [copyTaskInfo, if_neg long, cut, Bool.false_eq_true, if_false, ← copied]
          congr 2
        · omega

section Reported

variable {table : ProcessTable} {dentry : Dentry} {text : List UInt8}

/-- The calls are those of `s2fsReadFile`, with the text that is reported. -/
theorem readFile_refines (reports : Reports table dentry.pidInput text) (call : ReadCall)
    {offset : Int64} {start : Nat} (position : offset.toInt = start) :
    ∃ (len : Int) (result : ReadResult), readFile table dentry call offset = some result ∧
      s2fsReadFile (fun _ => (len, text)) dentry call.count.toNat start call.faulted =
        (result.returned.toInt, result.offset.toInt.toNat, result.copied) := by
  obtain ⟨len, tmp, printed, reported⟩ := reports.printed call.tmp
  refine ⟨len.toInt, _, by rw [readFile, printed], ?_⟩
  exact copyOut_refines reported position call.count call.faulted

/-- A call that is not refused gets the chunk at its offset, wherever that is. -/
theorem readFile_gets (reports : Reports table dentry.pidInput text) {call : ReadCall}
    (taken : call.faulted = false) {offset : Int64} {start : Nat}
    (position : offset.toInt = start) :
    ∃ result, readFile table dentry call offset = some result ∧
      Gets text start call.count.toNat result := by
  obtain ⟨len, tmp, printed, reported⟩ := reports.printed call.tmp
  refine ⟨copyOut len tmp call.count offset false, by rw [readFile, printed, taken], ?_⟩
  rcases reported with ⟨whole, holds⟩ | ⟨negative, empty⟩
  · by_cases inside : start ≤ text.length
    · exact copyOut_inside whole holds position inside call.count
    · exact copyOut_beyond tmp position (by omega) (by omega) call.count false
  · rw [empty]
    exact copyOut_beyond tmp position (by omega) (Nat.zero_le _) call.count false

theorem readFile_refused (reports : Reports table dentry.pidInput text) {call : ReadCall}
    (refused : call.faulted = true) (offset : Int64) :
    ∃ result, readFile table dentry call offset = some result ∧ result.copied = [] ∧
      result.offset = offset ∧ (result.returned = 0 ∨ result.returned = -14) := by
  obtain ⟨len, tmp, printed, _⟩ := reports.printed call.tmp
  refine ⟨copyOut len tmp call.count offset true, by rw [readFile, printed, refused], ?_⟩
  rw [copyOut]
  split
  · exact ⟨rfl, rfl, .inl rfl⟩
  · exact ⟨rfl, rfl, .inr rfl⟩

theorem readFile_gone (unknown : table.findGetPid dentry.pidInput = none) (call : ReadCall)
    {offset : Int64} (nonneg : 0 ≤ offset.toInt) :
    readFile table dentry call offset = some ⟨0, offset, []⟩ := by
  have beyond : offset > (-1 : Int32).toInt64 := by
    rw [gt_iff_lt, Int64.lt_iff_toInt_lt]
    exact Int.lt_of_lt_of_le (by decide) nonneg
  rw [readFile, getTaskInfo_unknown unknown]
  exact congrArg some (if_pos beyond)

/-- Any call gets the chunk it can take, and the next one begins behind it. -/
theorem readFile_moves (reports : Reports table dentry.pidInput text) (call : ReadCall)
    {offset : Int64} {start : Nat} (position : offset.toInt = start) :
    ∃ result, readFile table dentry call offset = some result ∧
      result.copied = chunk text start call.wanted ∧
      result.offset.toInt = (start + result.copied.length : Nat) := by
  cases taken : call.faulted with
  | false =>
      obtain ⟨result, read, gets⟩ := readFile_gets reports taken position
      have wanted : call.wanted = call.count.toNat := by
        rw [ReadCall.wanted, taken, if_neg Bool.false_ne_true]
      refine ⟨result, read, ?_, ?_⟩
      · rw [wanted]
        exact gets.copied
      · rw [gets.offset, Int.natCast_add]
  | true =>
      obtain ⟨result, read, copied, same, _⟩ := readFile_refused reports taken offset
      have wanted : call.wanted = 0 := by
        rw [ReadCall.wanted, taken, if_pos rfl]
      refine ⟨result, read, ?_, ?_⟩
      · rw [wanted, chunk_zero, copied]
      · rw [same, copied, position]
        rfl

/-! ### Calls one after the other -/

/-- What the calls copy one after the other is what reads of these counts get. -/
theorem readCalls_reads (reports : Reports table dentry.pidInput text) (calls : List ReadCall)
    {offset : Int64} {start : Nat} (position : offset.toInt = start) :
    ∃ results last, readCalls table dentry offset calls = some (results, last) ∧
      results.map ReadResult.copied = readFrom text start (calls.map ReadCall.wanted) ∧
      last.toInt = (start + (results.map ReadResult.copied).flatten.length : Nat) := by
  induction calls generalizing offset start with
  | nil => exact ⟨[], offset, rfl, rfl, position⟩
  | cons call rest ih =>
      obtain ⟨result, read, copied, moved⟩ := readFile_moves reports call position
      obtain ⟨results, last, later, chunks, ended⟩ := ih moved
      refine ⟨result :: results, last, ?_, ?_, ?_⟩
      · simp only [readCalls, read, later]
      · rw [List.map_cons, List.map_cons, readFrom, chunks, copied]
      · rw [ended, List.map_cons, List.flatten_cons, List.length_append, Nat.add_assoc]

structure Delivers (text delivered : List UInt8) (call : ReadCall) (offset : Int64)
    (result : ReadResult) : Prop where
  begun : delivered <+: text
  position : offset.toInt = delivered.length
  lower : 0 ≤ result.returned.toInt
  upper : result.returned.toInt ≤ call.count.toNat
  copied : result.returned.toInt = result.copied.length
  continues : delivered ++ result.copied <+: text
  advanced : result.offset.toInt = offset.toInt + result.returned.toInt
  /-- The bytes are copied from below the end of the text, which is below that of `tmp`. -/
  inside : result.offset.toInt ≤ text.length ∧ text.length < TMPSIZE
  ended : result.returned = 0 ↔ delivered = text

theorem Gets.delivers {call : ReadCall} {offset : Int64} {result : ReadResult}
    {delivered : List UInt8}
    (gets : Gets text delivered.length call.count.toNat result)
    (fits : text.length < TMPSIZE) (positive : 0 < call.count.toNat)
    (begun : delivered <+: text) (position : offset.toInt = delivered.length) :
    Delivers text delivered call offset result := by
  have within := chunk_inside begun.length_le call.count.toNat
  rw [← gets.copied] at within
  have bounded := chunk_length text delivered.length call.count.toNat
  rw [← gets.copied] at bounded
  have returned := gets.returned
  have moved := gets.offset
  constructor
  · exact begun
  · exact position
  · omega
  · omega
  · exact returned
  · rw [gets.copied]
    exact append_chunk_isPrefix begun call.count.toNat
  · omega
  · exact ⟨by omega, fits⟩
  · rw [← Int64.toInt_inj, returned]
    change ((result.copied.length : Nat) : Int) = 0 ↔ _
    rw [Int.natCast_eq_zero, List.length_eq_zero_iff, gets.copied, chunk_eq_nil_iff positive]
    constructor
    · exact begun.eq_of_length_le
    · intro same
      exact Nat.le_of_eq (congrArg List.length same).symm

/-- Whatever has been read before, a call of `s2fs_read_file` for a positive count delivers
the next bytes of the text, and 0 when all have been delivered; at any offset that is not
negative it gets what is there. -/
theorem readCalls_chunks (reports : Reports table dentry.pidInput text)
    (earlier : List ReadCall) {call : ReadCall} (taken : call.faulted = false)
    (positive : 0 < call.count.toNat) :
    ∃ results offset result,
      readCalls table dentry 0 earlier = some (results, offset) ∧
      readFile table dentry call offset = some result ∧
      Delivers text (results.map ReadResult.copied).flatten call offset result ∧
      (table.findGetPid dentry.pidInput = none → result.returned = 0) ∧
      ∀ start : Int64, 0 ≤ start.toInt → ∃ there,
        readFile table dentry call start = some there ∧
        there.copied = chunk text start.toInt.toNat call.count.toNat ∧
        there.returned.toInt = there.copied.length := by
  have atStart : (0 : Int64).toInt = (0 : Nat) := rfl
  obtain ⟨results, offset, before, chunks, position⟩ := readCalls_reads reports earlier atStart
  rw [Nat.zero_add] at position
  obtain ⟨result, read, gets⟩ := readFile_gets reports taken position
  have begun : (results.map ReadResult.copied).flatten <+: text := by
    rw [chunks]
    exact readFrom_prefix text _
  refine ⟨results, offset, result, before, read, ?_, ?_, ?_⟩
  · exact gets.delivers reports.fits positive begun position
  · intro unknown
    rw [readFile_gone unknown call (by omega)] at read
    cases read
    rfl
  · intro start nonneg
    have place : start.toInt = (start.toInt.toNat : Nat) := (Int.toNat_of_nonneg nonneg).symm
    obtain ⟨there, readThere, getsThere⟩ := readFile_gets reports taken place
    exact ⟨there, readThere, getsThere.copied, getsThere.returned⟩

end Reported

def systemdFile : Dentry := ⟨some 0, ['1'], ⟨0x8000, 1⟩⟩

theorem readCalls_chunks_systemd :
    ∃ results offset result,
      readCalls startedTable systemdFile 0 [⟨10, false, fun _ => 7⟩, ⟨5, true, fun _ => 8⟩] =
        some (results, offset) ∧
      readFile startedTable systemdFile ⟨4096, false, fun _ => 9⟩ offset = some result ∧
      Delivers (taskInfoText (startedTable.tasks 1) (startedTable.tasks 0) ⟨0, 0, 1, 1, 1⟩)
        (results.map ReadResult.copied).flatten ⟨4096, false, fun _ => 9⟩ offset result ∧
      (startedTable.findGetPid systemdFile.pidInput = none → result.returned = 0) ∧
      ∀ start : Int64, 0 ≤ start.toInt → ∃ there,
        readFile startedTable systemdFile ⟨4096, false, fun _ => 9⟩ start = some there ∧
        there.copied = chunk (taskInfoText (startedTable.tasks 1) (startedTable.tasks 0)
          ⟨0, 0, 1, 1, 1⟩) start.toInt.toNat (4096 : UInt64).toNat ∧
        there.returned.toInt = there.copied.length := by
  have known : systemdFile.pidInput = 1 := by decide
  have found : startedTable.pidTask (startedTable.findGetPid systemdFile.pidInput) = some 1 := by
    rw [known]
    rfl
  exact readCalls_chunks (.live found rfl) _ rfl (by decide)

end LKP.S2fs
