import LKP.Library.CBuffer
import LKP.S2fs.PrintedNumbers

/-
`get_task_info`: what a read of an s2fs file prints of a task, and when it may.

The process table is what the kernel has when the file is read, which may be long after
the mount.  `none` is an oops.  The text is as long as its fifteen fields make it, and no
values of their types make it longer than the buffer.
-/

set_option autoImplicit false

namespace LKP.S2fs

open CBuffer

/-! ### The process table -/

structure MmStruct where
  mmapBase : UInt64
  taskSize : UInt64
  mmCount : Int32
  mapCount : Int32
  totalVm : UInt64

structure Comm where
  bytes : List UInt8
  nulFree : 0 ∉ bytes
  short : bytes.length ≤ 15

/-- The fields of a `struct task_struct` that are printed, with the numbers that the calls on
its pids return.  `real_parent` always points to a task; a kernel thread, and a task that is
about to exit, has no `mm`. -/
structure TaskFields where
  comm : Comm
  state : Int64
  pidVnr : Int32
  tgidNr : Int32
  tgidVnr : Int32
  realParent : Nat
  startTime : UInt64
  prio : Int32
  staticPrio : Int32
  normalPrio : Int32
  rtPriority : UInt32
  mm : Option MmStruct

structure ProcessTable where
  /-- The `struct pid` of a number; null if there is none. -/
  findGetPid : Int → Option Nat
  /-- The task attached to a `struct pid`, which may outlive it. -/
  attached : Nat → Option Nat
  tasks : Nat → TaskFields

/-- `pid_task`, which a null pointer passes through. -/
def ProcessTable.pidTask (table : ProcessTable) (structPid : Option Nat) : Option Nat :=
  structPid.bind table.attached

/-! ### Printing into a buffer -/

def TMPSIZE : Nat := 2000

/-- `snprintf` into `data`: the length of the whole text, and what is written of it. -/
def snprintfInto (data : Buffer) (size : Nat) (text : List UInt8) : Int32 × Buffer :=
  (Int32.ofNat text.length, memcpy data 0 (text.take (size - 1) ++ [0]))

/-- What is printed of a live task; the unsigned fields are printed as signed numbers. -/
def taskInfoText (task parent : TaskFields) (mm : MmStruct) : List UInt8 :=
  ascii "Task Name: ".toList ++ task.comm.bytes ++
  ascii "\nTask State: ".toList ++ percentD task.state.toInt ++
  ascii "\nPID: ".toList ++ percentD task.pidVnr.toInt ++
  ascii "\nTGID: ".toList ++ percentD task.tgidNr.toInt ++
  ascii "\nPPID: ".toList ++ percentD parent.tgidVnr.toInt ++
  ascii "\nStart Time: ".toList ++ percentD task.startTime.toInt64.toInt ++
  ascii "\nDynamic Priorty: ".toList ++ percentD task.prio.toInt ++
  ascii "\nStatic Priorty: ".toList ++ percentD task.staticPrio.toInt ++
  ascii "\nNormal Priorty: ".toList ++ percentD task.normalPrio.toInt ++
  ascii "\nRTime Priorty: ".toList ++ percentD task.rtPriority.toInt32.toInt ++
  ascii "\nMmap Base: ".toList ++ percentD mm.mmapBase.toInt64.toInt ++
  ascii "\nVMemory Space: ".toList ++ percentD mm.taskSize.toInt64.toInt ++
  ascii "\nVMemory Usage: ".toList ++ percentD mm.mmCount.toInt ++
  ascii "\nNo. of VMA: ".toList ++ percentD mm.mapCount.toInt ++
  ascii "\nTotal Pages Mapped: ".toList ++ percentD mm.totalVm.toInt64.toInt ++
  ascii "\n".toList

def goneText : List UInt8 := ascii "Task no longer exists\n".toList

def taskGone (data : Buffer) : Int32 × Buffer := (-1, (snprintfInto data TMPSIZE goneText).2)

def getTaskInfo (table : ProcessTable) (pid : Int) (data : Buffer) : Option (Int32 × Buffer) :=
  let structPid := table.findGetPid pid
  let taskPid := table.pidTask structPid
  if taskPid ≠ none ∨ structPid ≠ none then
    match taskPid with
    | none => none
    | some taskPid =>
        let task := table.tasks taskPid
        match task.mm with
        | none => none
        | some mm =>
            some (snprintfInto data TMPSIZE (taskInfoText task (table.tasks task.realParent) mm))
  else some (taskGone data)

/-! ### The length of the text -/

/-- The names of the fields take 204 bytes, and the fields at most 214. -/
theorem taskInfoText_length (task parent : TaskFields) (mm : MmStruct) :
    (taskInfoText task parent mm).length < TMPSIZE := by
  have comm := task.comm.short
  have state := percentD_long task.state
  have startTime := percentD_long task.startTime.toInt64
  have mmapBase := percentD_long mm.mmapBase.toInt64
  have taskSize := percentD_long mm.taskSize.toInt64
  have totalVm := percentD_long mm.totalVm.toInt64
  have pid := percentD_int task.pidVnr
  have tgid := percentD_int task.tgidNr
  have parentTgid := percentD_int parent.tgidVnr
  have prio := percentD_int task.prio
  have staticPrio := percentD_int task.staticPrio
  have normalPrio := percentD_int task.normalPrio
  have rtPriority := percentD_int task.rtPriority.toInt32
  have mmCount := percentD_int mm.mmCount
  have mapCount := percentD_int mm.mapCount
  unfold taskInfoText
  simp only [List.length_append, ascii_length, String.reduceToList, List.length_cons,
    List.length_nil, TMPSIZE]
  omega

theorem snprintfInto_length {data : Buffer} {text : List UInt8} (fits : text.length < TMPSIZE) :
    (snprintfInto data TMPSIZE text).1.toInt = text.length := by
  have small : text.length < 2 ^ 31 := by
    rw [TMPSIZE] at fits
    omega
  exact Int32.toInt_ofNat_of_lt small

theorem snprintfInto_holds {data : Buffer} {text : List UInt8} (fits : text.length < TMPSIZE) :
    Holds (snprintfInto data TMPSIZE text).2 0 (text ++ [0]) := by
  have whole : text.take (TMPSIZE - 1) = text := by
    apply List.take_of_length_le
    omega
  rw [snprintfInto, whole]
  exact memcpy_holds data 0 (text ++ [0])

/-! ### When it is safe -/

/-- The result of a text is never that of a task that is gone. -/
theorem taskInfo_ne_gone (task parent : TaskFields) (mm : MmStruct) (data : Buffer) :
    snprintfInto data TMPSIZE (taskInfoText task parent mm) ≠ taskGone data := by
  intro same
  have length := @snprintfInto_length data _ (taskInfoText_length task parent mm)
  rw [same] at length
  have negative : (taskGone data).1.toInt = -1 := rfl
  omega

theorem getTaskInfo_unknown {table : ProcessTable} {pid : Int}
    (unknown : table.findGetPid pid = none) (data : Buffer) :
    getTaskInfo table pid data = some (taskGone data) := by
  simp only [getTaskInfo, unknown, ProcessTable.pidTask, Option.bind_none, ne_eq,
    not_true_eq_false, or_self, if_false]

theorem getTaskInfo_live {table : ProcessTable} {pid : Int} {taskPid : Nat} {mm : MmStruct}
    (found : table.pidTask (table.findGetPid pid) = some taskPid)
    (mapped : (table.tasks taskPid).mm = some mm) (data : Buffer) :
    getTaskInfo table pid data =
      some (snprintfInto data TMPSIZE (taskInfoText (table.tasks taskPid)
        (table.tasks (table.tasks taskPid).realParent) mm)) := by
  have present : some taskPid ≠ none ∨ table.findGetPid pid ≠ none := .inl (Option.some_ne_none _)
  simp only [getTaskInfo, found, if_pos present, mapped]

/-- A task that has exited, or has no `mm`, is an oops as long as its `struct pid` is there. -/
theorem getTaskInfo_oops {table : ProcessTable} {pid : Int} {structPid : Nat}
    (known : table.findGetPid pid = some structPid)
    (broken : ∀ taskPid, table.attached structPid = some taskPid →
      (table.tasks taskPid).mm = none) (data : Buffer) :
    getTaskInfo table pid data = none := by
  have present : ∀ taskPid : Option Nat, taskPid ≠ none ∨ some structPid ≠ none :=
    fun _ => .inr (Option.some_ne_none _)
  simp only [getTaskInfo, known, if_pos (present _), ProcessTable.pidTask, Option.bind_some]
  cases attached : table.attached structPid with
  | none => rfl
  | some taskPid =>
      have noMm := broken taskPid attached
      simp only [noMm]

/-- `get_task_info` dereferences no null pointer, and reports a task as gone just when
`pid_task` finds none, if and only if the number has no `struct pid` any more or its task is
there and has an `mm`. -/
theorem getTaskInfo_safe_iff (table : ProcessTable) (pid : Int) (data : Buffer) :
    (∃ result, getTaskInfo table pid data = some result ∧
      (result = taskGone data ↔ table.pidTask (table.findGetPid pid) = none)) ↔
      table.findGetPid pid = none ∨
        ∃ taskPid mm, table.pidTask (table.findGetPid pid) = some taskPid ∧
          (table.tasks taskPid).mm = some mm := by
  constructor
  · intro safe
    obtain ⟨result, printed, _⟩ := safe
    cases known : table.findGetPid pid with
    | none => exact .inl rfl
    | some structPid =>
        right
        by_cases whole : ∃ taskPid mm, table.attached structPid = some taskPid ∧
            (table.tasks taskPid).mm = some mm
        · exact whole
        · have broken : ∀ taskPid, table.attached structPid = some taskPid →
              (table.tasks taskPid).mm = none := by
            intro taskPid attached
            cases mapped : (table.tasks taskPid).mm with
            | none => rfl
            | some mm => exact absurd ⟨taskPid, mm, attached, mapped⟩ whole
          rw [getTaskInfo_oops known broken] at printed
          cases printed
  · intro ready
    rcases ready with unknown | ⟨taskPid, mm, found, mapped⟩
    · have noTask : table.pidTask (table.findGetPid pid) = none := by
        rw [unknown]
        rfl
      exact ⟨taskGone data, getTaskInfo_unknown unknown data, fun _ => noTask, fun _ => rfl⟩
    · have task : table.pidTask (table.findGetPid pid) ≠ none := by
        rw [found]
        exact Option.some_ne_none taskPid
      exact ⟨_, getTaskInfo_live found mapped data,
        fun same => absurd same (taskInfo_ne_gone _ _ _ data), fun gone => absurd gone task⟩

def startedTable : ProcessTable where
  findGetPid pid := if pid = 1 ∨ pid = 2 then some pid.toNat else none
  attached := some
  tasks taskPid :=
    { comm := ⟨ascii "kthreadd".toList, by decide, by decide⟩
      state := 1, pidVnr := 2, tgidNr := 2, tgidVnr := 2, realParent := 0, startTime := 0
      prio := 120, staticPrio := 120, normalPrio := 120, rtPriority := 0
      mm := if taskPid = 1 then some ⟨0, 0, 1, 1, 1⟩ else none }

/-- A mount makes a file for `kthreadd`, and a read of it is an oops. -/
theorem getTaskInfo_safe_fails :
    (∃ sb, s2fsFillSuper (fun _ => true) (.node 0 [.node 1 [], .node 2 []]) = some (0, sb) ∧
      ∃ dentry ∈ sb.dentries, dentry.kind = .file ∧ dentry.inode.iPrivate = 2) ∧
    startedTable.pidTask (startedTable.findGetPid 2) = some 2 ∧
    ∀ data, ¬ ∃ result, getTaskInfo startedTable 2 data = some result ∧
      (result = taskGone data ↔ startedTable.pidTask (startedTable.findGetPid 2) = none) := by
  constructor
  · exact ⟨_, rfl, by decide⟩
  · constructor
    · rfl
    · intro data safe
      obtain ⟨result, printed, _⟩ := safe
      cases printed

end LKP.S2fs
