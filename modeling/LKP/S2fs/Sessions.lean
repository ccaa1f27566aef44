import LKP.Library.LockStep
import LKP.S2fs.ChunkedReads
import LKP.S2fs.Mount

/-
Open files of a mount, while tasks come and go.

The kernel hands `s2fs_read_file` the dentry of an open file and its `f_pos`, and each read
asks for the task again.  So the mount works like a desk at which one names a pid and is read
the text that there is for it at that moment, from where one was; what others read makes no
difference.
-/

set_option autoImplicit false

namespace LKP.S2fs

open CBuffer CIntegers SequentialRead TransitionRun LockStep

/-! ### What there is to read -/

inductive Report
  | oops
  | gone
  | text (bytes : List UInt8)

def ProcessTable.report (table : ProcessTable) (pid : Int) : Report :=
  match table.findGetPid pid with
  | none => .gone
  | some structPid =>
      match table.attached structPid with
      | none => .oops
      | some taskPid =>
          match (table.tasks taskPid).mm with
          | none => .oops
          | some mm =>
              .text (taskInfoText (table.tasks taskPid)
                (table.tasks (table.tasks taskPid).realParent) mm)

def Report.answer (report : Report) (position count : Nat) (faulted : Bool) :
    Option (Int × List UInt8) :=
  match report with
  | .oops => none
  | .gone => some (0, [])
  | .text bytes =>
      if bytes.length < position then some (0, [])
      else if faulted then some (-14, [])
      else some ((chunk bytes position count).length, chunk bytes position count)

/-! ### Open files -/

/-- A `struct file`: the number of `f_path.dentry`, and `f_pos`. -/
structure OpenFile where
  dentry : Nat
  fPos : Int64

/-- The dentries of a mount, the process table as it is, and the files opened so far. -/
structure Session where
  dentries : List Dentry
  table : ProcessTable
  files : List OpenFile

inductive Act
  | opens (dentry : Nat)
  | read (file : Nat) (call : ReadCall)
  /-- A read at an offset of its own, which leaves `f_pos` alone. -/
  | pread (file : Nat) (call : ReadCall) (offset : Int64)
  /-- A write of so many bytes, of which `copy_from_user` may fail. -/
  | write (file : Nat) (count : UInt64) (faulted : Bool)
  /-- A write at an offset of its own. -/
  | pwrite (file : Nat) (count : UInt64) (faulted : Bool) (offset : Int64)
  /-- The process table is another from now on. -/
  | changes (table : ProcessTable)

/-- What a call on a file returned, and the bytes that were copied. -/
inductive Seen
  | read (file : Nat) (returned : Int) (copied : List UInt8)
  | pread (file : Nat) (returned : Int) (copied : List UInt8)
  | wrote (file : Nat) (returned : Int)

/-- `s2fs_write_file` up to `atomic_set`.  `private_data` points to the parameter `pid` of the
call that made the inode, which has returned; `none` is the store through it. -/
def s2fsWriteFile (count : UInt64) (offset : Int64) (faulted : Bool) : Option Int64 :=
  if offset ≠ 0 then some (-22)
  else if TMPSIZE ≤ count.toNat then some (-22)
  else if faulted then some (-14)
  else none

def fileAt (dentries : List Dentry) (index : Nat) : Option Dentry :=
  (dentries[index]?).filter (fun dentry => dentry.kind = .file)

def Session.call (session : Session) (file : Nat) (call : ReadCall)
    (offset : OpenFile → Int64) : Option (OpenFile × ReadResult) :=
  match session.files[file]? with
  | none => none
  | some opened =>
      match fileAt session.dentries opened.dentry with
      | none => none
      | some dentry =>
          (readFile session.table dentry call (offset opened)).map (fun result => (opened, result))

def Session.writeCall (session : Session) (file : Nat) (count : UInt64) (faulted : Bool)
    (offset : OpenFile → Int64) : Option (Session × List Seen) :=
  match session.files[file]? with
  | none => none
  | some opened =>
      (s2fsWriteFile count (offset opened) faulted).map (fun returned =>
        (session, [.wrote file returned.toInt]))

/-- Files are opened as regular files only, and no offset is negative. -/
def sessionStep : StepFunction Session Act Seen := fun session act =>
  match act with
  | .opens dentry =>
      match fileAt session.dentries dentry with
      | none => none
      | some _ => some ({ session with files := session.files ++ [⟨dentry, 0⟩] }, [])
  | .read file call =>
      (session.call file call OpenFile.fPos).map (fun (opened, result) =>
        ({ session with
            files := session.files.set file { opened with fPos := result.offset } },
          [.read file result.returned.toInt result.copied]))
  | .pread file call offset =>
      if offset.toInt < 0 then none
      else
        (session.call file call (fun _ => offset)).map (fun (_, result) =>
          (session, [.pread file result.returned.toInt result.copied]))
  | .write file count faulted => session.writeCall file count faulted OpenFile.fPos
  | .pwrite file count faulted offset =>
      if offset.toInt < 0 then none
      else session.writeCall file count faulted (fun _ => offset)
  | .changes table => some ({ session with table := table }, [])

/-! ### The desk -/

structure Reader where
  pid : Int
  position : Nat

structure Desk where
  report : Int → Report
  readers : List Reader

def pidAt (dentries : List Dentry) (index : Nat) : Option Int :=
  (fileAt dentries index).map (fun dentry => dentry.inode.iPrivate)

def refusal (position count : Nat) (faulted : Bool) : Option Int :=
  if position ≠ 0 ∨ TMPSIZE ≤ count then some (-22)
  else if faulted then some (-14)
  else none

def Desk.refuse (desk : Desk) (file : Nat) (count : UInt64) (faulted : Bool)
    (position : Reader → Nat) : Option (Desk × List Seen) :=
  match desk.readers[file]? with
  | none => none
  | some reader =>
      (refusal (position reader) count.toNat faulted).map (fun returned =>
        (desk, [.wrote file returned]))

/-- The same acts, where the dentries are only asked for their pids. -/
def deskStep (dentries : List Dentry) : StepFunction Desk Act Seen := fun desk act =>
  match act with
  | .opens dentry =>
      (pidAt dentries dentry).map (fun pid =>
        ({ desk with readers := desk.readers ++ [⟨pid, 0⟩] }, []))
  | .read file call =>
      match desk.readers[file]? with
      | none => none
      | some reader =>
          ((desk.report reader.pid).answer reader.position call.count.toNat call.faulted).map
            (fun (returned, copied) =>
              ({ desk with
                  readers := desk.readers.set file
                    { reader with position := reader.position + copied.length } },
                [.read file returned copied]))
  | .pread file call offset =>
      if offset.toInt < 0 then none
      else
        match desk.readers[file]? with
        | none => none
        | some reader =>
            ((desk.report reader.pid).answer offset.toInt.toNat call.count.toNat
              call.faulted).map
              (fun (returned, copied) => (desk, [.pread file returned copied]))
  | .write file count faulted => desk.refuse file count faulted Reader.position
  | .pwrite file count faulted offset =>
      if offset.toInt < 0 then none
      else desk.refuse file count faulted (fun _ => offset.toInt.toNat)
  | .changes table => some ({ desk with report := table.report }, [])

/-! ### One call -/

section Call

variable {table : ProcessTable} {dentry : Dentry}

theorem ProcessTable.report_text {pid : Int} {bytes : List UInt8}
    (found : table.report pid = .text bytes) : Reports table pid bytes := by
  unfold ProcessTable.report at found
  split at found
  · cases found
  · rename_i structPid known
    split at found
    · cases found
    · rename_i taskPid attached
      split at found
      · cases found
      · rename_i mm mapped
        have task : table.pidTask (table.findGetPid pid) = some taskPid := by
          rw [known]
          exact attached
        have same := Report.text.inj found
        rw [← same]
        exact .live task mapped

/-- The text of a live task, and nothing else, is in the buffer. -/
theorem ProcessTable.printed_text {pid : Int} {bytes : List UInt8}
    (found : table.report pid = .text bytes) (data : Buffer) :
    ∃ len tmp, getTaskInfo table pid data = some (len, tmp) ∧
      len.toInt = bytes.length ∧ Holds tmp 0 bytes := by
  have reports := table.report_text found
  have fits := reports.fits
  cases reports with
  | live task mapped =>
      exact ⟨_, _, getTaskInfo_live task mapped data, @snprintfInto_length data _ fits,
        (snprintfInto_holds fits).left⟩
  | gone unknown =>
      rw [ProcessTable.report, unknown] at found
      cases found

theorem ProcessTable.report_gone {pid : Int} (found : table.report pid = .gone) :
    table.findGetPid pid = none := by
  unfold ProcessTable.report at found
  split at found
  · rename_i unknown
    exact unknown
  · split at found
    · cases found
    · split at found
      · cases found
      · cases found

theorem ProcessTable.report_oops {pid : Int} (found : table.report pid = .oops)
    (data : Buffer) : getTaskInfo table pid data = none := by
  unfold ProcessTable.report at found
  split at found
  · cases found
  · rename_i structPid known
    apply getTaskInfo_oops known
    intro taskPid attached
    rw [attached] at found
    cases mapped : (table.tasks taskPid).mm with
    | none => rfl
    | some mm =>
        simp only [mapped] at found
        cases found

/-- A call answers as the report of its pid does, and the next one is behind what it got. -/
theorem readFile_answers (call : ReadCall) {offset : Int64} {position : Nat}
    (place : offset.toInt = position) :
    (readFile table dentry call offset).map
        (fun result => (result.returned.toInt, result.copied)) =
      (table.report dentry.pidInput).answer position call.count.toNat call.faulted ∧
    ∀ result, readFile table dentry call offset = some result →
      result.offset.toInt = (position + result.copied.length : Nat) := by
  cases found : table.report dentry.pidInput with
  | oops =>
      have broken : readFile table dentry call offset = none := by
        rw [readFile, table.report_oops found]
      rw [broken]
      exact ⟨rfl, fun result read => absurd read.symm (Option.some_ne_none result)⟩
  | gone =>
      have read : readFile table dentry call offset = some ⟨0, offset, []⟩ :=
        readFile_gone (table.report_gone found) call (by omega)
      rw [read]
      refine ⟨rfl, fun result same => ?_⟩
      cases same
      exact place
  | text bytes =>
      obtain ⟨len, tmp, printed, whole, holds⟩ := table.printed_text found call.tmp
      have read : readFile table dentry call offset =
          some (copyOut len tmp call.count offset call.faulted) := by
        rw [readFile, printed]
      rw [read]
      by_cases beyond : bytes.length < position
      · have gets : Gets bytes position call.count.toNat
            (copyOut len tmp call.count offset call.faulted) :=
          copyOut_beyond tmp place (by omega) (Nat.le_of_lt beyond) call.count call.faulted
        have nothing : chunk bytes position call.count.toNat = [] := by
          rw [chunk, List.drop_eq_nil_of_le (Nat.le_of_lt beyond), List.take_nil]
        refine ⟨?_, fun result same => ?_⟩
        · rw [Option.map_some, gets.returned, gets.copied, nothing, Report.answer,
            if_pos beyond]
          rfl
        · cases same
          rw [gets.offset, Int.natCast_add]
      · have inside := Nat.le_of_not_lt beyond
        cases call.faulted with
        | true =>
            have notBeyond : ¬ offset > len.toInt64 := by
              rw [gt_iff_lt, Int64.lt_iff_toInt_lt, Int32.toInt_toInt64]
              omega
            rw [copyOut, if_neg notBeyond, if_pos rfl, Report.answer, if_neg beyond, if_pos rfl]
            refine ⟨rfl, fun result same => ?_⟩
            cases same
            exact place
        | false =>
            have gets := copyOut_inside whole holds place inside call.count
            refine ⟨?_, fun result same => ?_⟩
            · rw [Option.map_some, gets.returned, gets.copied, Report.answer, if_neg beyond,
                if_neg Bool.false_ne_true]
            · cases same
              rw [gets.offset, Int.natCast_add]

end Call

/-! ### What a session is to the desk -/

def OpenFile.reader (dentries : List Dentry) (opened : OpenFile) : Reader :=
  ⟨(pidAt dentries opened.dentry).getD 0, opened.fPos.toInt.toNat⟩

def Session.desk (session : Session) : Desk :=
  ⟨session.table.report, session.files.map (OpenFile.reader session.dentries)⟩

/-- Every regular file has the name of the pid that it was made for, and every open file is
such a file. -/
structure Session.Sound (session : Session) : Prop where
  named : ∀ index dentry, fileAt session.dentries index = some dentry →
    dentry.pidInput = dentry.inode.iPrivate
  regular : ∀ opened ∈ session.files, ∃ dentry,
    fileAt session.dentries opened.dentry = some dentry
  nonneg : ∀ opened ∈ session.files, 0 ≤ opened.fPos.toInt

section Steps

variable {session : Session}

theorem Session.readers (session : Session) (file : Nat) :
    session.desk.readers[file]? =
      (session.files[file]?).map (OpenFile.reader session.dentries) :=
  List.getElem?_map

/-- A call on an open file answers as the report of its reader does. -/
theorem Session.Sound.call (sound : session.Sound) {file : Nat} {opened : OpenFile}
    (found : session.files[file]? = some opened) (call : ReadCall) (offset : OpenFile → Int64)
    {position : Nat} (place : (offset opened).toInt = position) :
    (session.call file call offset).map
        (fun (_, result) => (result.returned.toInt, result.copied)) =
      (session.table.report (opened.reader session.dentries).pid).answer position
        call.count.toNat call.faulted ∧
    ∀ again result, session.call file call offset = some (again, result) →
      again = opened ∧ result.offset.toInt = (position + result.copied.length : Nat) := by
  obtain ⟨dentry, regular⟩ := sound.regular opened (List.mem_of_getElem? found)
  have pid : (opened.reader session.dentries).pid = dentry.pidInput := by
    rw [sound.named _ _ regular, OpenFile.reader, pidAt, regular]
    rfl
  obtain ⟨answers, moves⟩ := @readFile_answers session.table dentry call _ _ place
  have called : session.call file call offset =
      (readFile session.table dentry call (offset opened)).map
        (fun result => (opened, result)) := by
    simp only [Session.call, found, regular]
  rw [called, pid, ← answers, Option.map_map]
  refine ⟨rfl, fun again result same => ?_⟩
  obtain ⟨got, read, pair⟩ := Option.map_eq_some_iff.mp same
  cases pair
  exact ⟨rfl, moves result read⟩

theorem Session.Sound.position (sound : session.Sound) {file : Nat} {opened : OpenFile}
    (found : session.files[file]? = some opened) :
    opened.fPos.toInt = (opened.reader session.dentries).position :=
  (Int.toNat_of_nonneg (sound.nonneg opened (List.mem_of_getElem? found))).symm

/-- A call on a file that is not open is refused. -/
theorem Session.call_unopened {file : Nat} (unopened : session.files[file]? = none)
    (call : ReadCall) (offset : OpenFile → Int64) : session.call file call offset = none := by
  rw [Session.call, unopened]

theorem s2fsWriteFile_refuses {count : UInt64} {offset : Int64} {faulted : Bool} {position : Nat}
    (place : offset.toInt = position) :
    (s2fsWriteFile count offset faulted).map Int64.toInt =
      refusal position count.toNat faulted := by
  have start : offset ≠ 0 ↔ position ≠ 0 := by
    rw [ne_eq, ← Int64.toInt_inj, place]
    exact not_congr Int.natCast_eq_zero
  rw [s2fsWriteFile, refusal]
  by_cases moved : position ≠ 0
  · rw [if_pos (start.mpr moved), if_pos (.inl moved)]
    rfl
  · rw [if_neg (fun further => moved (start.mp further))]
    by_cases long : TMPSIZE ≤ count.toNat
    · rw [if_pos long, if_pos (.inr long)]
      rfl
    · rw [if_neg long, if_neg (not_or.mpr ⟨moved, long⟩)]
      cases faulted with
      | true => rfl
      | false => rfl

/-- A write to an open file is refused as its reader is. -/
theorem Session.write_desk (session : Session) {file : Nat} {count : UInt64} {faulted : Bool}
    {offset : OpenFile → Int64} {position : Reader → Nat}
    (places : ∀ opened, session.files[file]? = some opened →
      (offset opened).toInt = position (opened.reader session.dentries)) :
    (session.writeCall file count faulted offset).map (fun (next, seen) => (next.desk, seen)) =
      session.desk.refuse file count faulted position := by
  rw [Session.writeCall, Desk.refuse, session.readers]
  cases found : session.files[file]? with
  | none => rfl
  | some opened =>
      have refuses := @s2fsWriteFile_refuses count _ faulted _ (places opened found)
      simp only [Option.map_some, ← refuses, Option.map_map]
      rfl

/-- An act does to the session what it does to the desk. -/
theorem Session.Sound.step_desk (sound : session.Sound) (act : Act) :
    (sessionStep session act).map (fun (next, seen) => (next.desk, seen)) =
      deskStep session.dentries session.desk act := by
  cases act with
  | opens dentry =>
      simp only [sessionStep, deskStep, pidAt]
      cases regular : fileAt session.dentries dentry with
      | none => rfl
      | some file =>
          have reader : OpenFile.reader session.dentries ⟨dentry, 0⟩ =
              ⟨file.inode.iPrivate, 0⟩ := by
            rw [OpenFile.reader, pidAt, regular]
            rfl
          simp only [Option.map_some, Session.desk, List.map_append, List.map_cons, List.map_nil,
            reader]
  | read file call =>
      simp only [sessionStep, deskStep, session.readers]
      cases found : session.files[file]? with
      | none =>
          rw [Session.call_unopened found]
          rfl
      | some opened =>
          obtain ⟨answers, moves⟩ := sound.call found call OpenFile.fPos
            (sound.position found)
          have report : session.desk.report = session.table.report := rfl
          simp only [Option.map_some, report, ← answers]
          cases called : session.call file call OpenFile.fPos with
          | none => rfl
          | some pair =>
              obtain ⟨again, result⟩ := pair
              obtain ⟨rfl, moved⟩ := moves again result called
              have reader : OpenFile.reader session.dentries
                  { again with fPos := result.offset } =
                  { again.reader session.dentries with
                    position := (again.reader session.dentries).position +
                      result.copied.length } := by
                rw [OpenFile.reader, OpenFile.reader, moved]
                rfl
              simp only [Option.map_some, Session.desk, List.map_set, reader]
  | pread file call offset =>
      simp only [sessionStep, deskStep]
      by_cases negative : offset.toInt < 0
      · rw [if_pos negative, if_pos negative]
        rfl
      · rw [if_neg negative, if_neg negative, session.readers]
        cases found : session.files[file]? with
        | none =>
            rw [Session.call_unopened found]
            rfl
        | some opened =>
            have place : offset.toInt = (offset.toInt.toNat : Nat) :=
              (Int.toNat_of_nonneg (Int.not_lt.mp negative)).symm
            obtain ⟨answers, _⟩ := sound.call found call (fun _ => offset) place
            have report : session.desk.report = session.table.report := rfl
            simp only [Option.map_some, report, ← answers, Option.map_map]
            rfl
  | write file count faulted => exact session.write_desk (fun _ found => sound.position found)
  | pwrite file count faulted offset =>
      simp only [sessionStep, deskStep]
      by_cases negative : offset.toInt < 0
      · rw [if_pos negative, if_pos negative]
        rfl
      · rw [if_neg negative, if_neg negative]
        exact session.write_desk
          (fun _ _ => (Int.toNat_of_nonneg (Int.not_lt.mp negative)).symm)
  | changes table => rfl

/-- A write that is refused changes nothing. -/
theorem Session.writeCall_keeps {next : Session} {file : Nat} {count : UInt64} {faulted : Bool}
    {offset : OpenFile → Int64} {seen : List Seen}
    (accepted : session.writeCall file count faulted offset = some (next, seen)) :
    next = session := by
  rw [Session.writeCall] at accepted
  split at accepted
  · cases accepted
  · obtain ⟨_, _, pair⟩ := Option.map_eq_some_iff.mp accepted
    cases pair
    rfl

/-- An act leaves the dentries, and what is open is a regular file at an offset that is not
negative. -/
theorem Session.Sound.step (sound : session.Sound) {act : Act} {next : Session}
    {seen : List Seen} (accepted : sessionStep session act = some (next, seen)) :
    next.Sound ∧ next.dentries = session.dentries := by
  cases act with
  | opens dentry =>
      simp only [sessionStep] at accepted
      split at accepted
      · cases accepted
      · rename_i file regular
        cases accepted
        refine ⟨⟨sound.named, ?_, ?_⟩, rfl⟩
        · intro opened member
          rcases List.mem_append.mp member with earlier | last
          · exact sound.regular opened earlier
          · rw [List.mem_singleton.mp last]
            exact ⟨file, regular⟩
        · intro opened member
          rcases List.mem_append.mp member with earlier | last
          · exact sound.nonneg opened earlier
          · rw [List.mem_singleton.mp last]
            exact Int.le_refl 0
  | read file call =>
      obtain ⟨⟨opened, result⟩, called, pair⟩ := Option.map_eq_some_iff.mp accepted
      cases pair
      cases found : session.files[file]? with
      | none =>
          rw [Session.call_unopened found] at called
          cases called
      | some was =>
          have member := List.mem_of_getElem? found
          obtain ⟨rfl, moved⟩ := (sound.call found call OpenFile.fPos
            (sound.position found)).2 opened result called
          refine ⟨⟨sound.named, ?_, ?_⟩, rfl⟩
          · intro other among
            rcases List.mem_or_eq_of_mem_set among with earlier | same
            · exact sound.regular other earlier
            · rw [same]
              exact sound.regular opened member
          · intro other among
            rcases List.mem_or_eq_of_mem_set among with earlier | same
            · exact sound.nonneg other earlier
            · rw [same]
              change 0 ≤ result.offset.toInt
              omega
  | pread file call offset =>
      simp only [sessionStep] at accepted
      split at accepted
      · cases accepted
      · obtain ⟨_, _, pair⟩ := Option.map_eq_some_iff.mp accepted
        cases pair
        exact ⟨sound, rfl⟩
  | write file count faulted =>
      rw [Session.writeCall_keeps accepted]
      exact ⟨sound, rfl⟩
  | pwrite file count faulted offset =>
      simp only [sessionStep] at accepted
      split at accepted
      · cases accepted
      · rw [Session.writeCall_keeps accepted]
        exact ⟨sound, rfl⟩
  | changes table =>
      cases accepted
      exact ⟨⟨sound.named, sound.regular, sound.nonneg⟩, rfl⟩

end Steps

/-! ### Runs -/

section Runs

variable {grants : Nat → Bool} {task : TaskStruct} {sb : SuperBlock} {table : ProcessTable}
variable {acts : List Act} {seen : List Seen}

/-- A mount on which nothing is open yet. -/
theorem mounted_sound (granted : ∀ asked, grants asked = true) (distinct : task.labels.Nodup)
    (pids : ∀ pid ∈ task.labels, IsPid pid) (mounted : s2fsFillSuper grants task = some (0, sb))
    (table : ProcessTable) : Session.Sound ⟨sb.dentries, table, []⟩ where
  named index dentry found := by
    obtain ⟨requests, same⟩ := s2fsFillSuper_granted granted task
    cases mounted.symm.trans same
    obtain ⟨at_, regular⟩ := Option.filter_eq_some_iff.mp found
    obtain ⟨among, name, _⟩ := (mount_mirrors distinct pids).asks dentry
      (List.mem_of_getElem? at_) (of_decide_eq_true regular)
    have inline : dentry.dIname = fileName dentry.inode.iPrivate := by
      rw [Dentry.dIname, name, if_pos (fileName_short _)]
    rw [Dentry.pidInput, inline]
    exact pidOf_fileName (pids _ among)
  regular opened member := absurd member List.not_mem_nil
  nonneg opened member := absurd member List.not_mem_nil

structure Session.At (dentries : List Dentry) (session : Session) (desk : Desk) : Prop where
  sound : session.Sound
  mounted : session.dentries = dentries
  same : session.desk = desk

theorem Session.At.step {dentries : List Dentry} {session next : Session} {desk : Desk}
    (stands : session.At dentries desk) {act : Act} {shown : List Seen}
    (accepted : sessionStep session act = some (next, shown)) :
    ∃ after, deskStep dentries desk act = some (after, shown) ∧ next.At dentries after := by
  obtain ⟨sound, mounted, rfl⟩ := stands
  obtain ⟨soundNext, kept⟩ := sound.step accepted
  have moves := sound.step_desk act
  rw [accepted, mounted] at moves
  exact ⟨next.desk, moves.symm, soundNext, kept.trans mounted, rfl⟩

theorem Session.At.back {dentries : List Dentry} {session : Session} {desk after : Desk}
    (stands : session.At dentries desk) {act : Act} {shown : List Seen}
    (accepted : deskStep dentries desk act = some (after, shown)) :
    ∃ next, sessionStep session act = some (next, shown) ∧ next.At dentries after := by
  obtain ⟨sound, mounted, rfl⟩ := stands
  have moves := sound.step_desk act
  rw [mounted, accepted] at moves
  obtain ⟨⟨next, lines⟩, taken, pair⟩ := Option.map_eq_some_iff.mp moves
  cases pair
  obtain ⟨soundNext, kept⟩ := sound.step taken
  exact ⟨next, taken, soundNext, kept.trans mounted, rfl⟩

/-- Whatever is opened and read, and whatever becomes of the tasks, a mount answers as the desk
does, and the other way round. -/
theorem sessions_refine (granted : ∀ asked, grants asked = true) (distinct : task.labels.Nodup)
    (pids : ∀ pid ∈ task.labels, IsPid pid) (mounted : s2fsFillSuper grants task = some (0, sb))
    (table : ProcessTable) (acts : List Act) (seen : List Seen) :
    (∀ final, Run sessionStep always ⟨sb.dentries, table, []⟩ acts seen final →
        Run (deskStep sb.dentries) always ⟨table.report, []⟩ acts seen final.desk) ∧
      ∀ desk, Run (deskStep sb.dentries) always ⟨table.report, []⟩ acts seen desk →
        ∃ final, Run sessionStep always ⟨sb.dentries, table, []⟩ acts seen final ∧
          final.desk = desk := by
  have begins : Session.At sb.dentries ⟨sb.dentries, table, []⟩ ⟨table.report, []⟩ :=
    ⟨mounted_sound granted distinct pids mounted table, rfl, rfl⟩
  constructor
  · intro final run
    obtain ⟨desk, deskRun, stands⟩ :=
      run.simulated (fun session desk => session.At sb.dentries desk)
        (fun _ _ _ _ _ stands _ accepted => ⟨trivial, stands.step accepted⟩) begins
    rw [stands.same]
    exact deskRun
  · intro desk run
    have back : ∀ (desk : Desk) (session : Session) (act : Act) (after : Desk)
        (shown : List Seen), session.At sb.dentries desk → always desk act →
        deskStep sb.dentries desk act = some (after, shown) → always session act ∧
          ∃ next, sessionStep session act = some (next, shown) ∧ next.At sb.dentries after :=
      fun _ _ _ _ _ stands _ accepted => ⟨trivial, stands.back accepted⟩
    obtain ⟨final, sessionRun, stands⟩ := run.simulated _ back begins
    exact ⟨final, sessionRun, stands.same⟩

end Runs

/-! ### One file among others -/

def delivered (file : Nat) (seen : List Seen) : List UInt8 :=
  seen.flatMap (fun line =>
    match line with
    | .read number _ copied => if number = file then copied else []
    | _ => [])

section Delivered

variable {dentries : List Dentry} {pid : Int} {bytes : List UInt8}

theorem delivered_append (file : Nat) (earlier later : List Seen) :
    delivered file (earlier ++ later) = delivered file earlier ++ delivered file later :=
  List.flatMap_append

theorem delivered_read (file number : Nat) (returned : Int) (copied : List UInt8) :
    delivered file [.read number returned copied] = if number = file then copied else [] :=
  List.append_nil _

/-- Every reader is as far as the bytes that it has been given, and a reader that there is not
yet has been given nothing. -/
structure Desk.Placed (seen : List Seen) (desk : Desk) : Prop where
  nothing : ∀ file, desk.readers.length ≤ file → delivered file seen = []
  position : ∀ file reader, desk.readers[file]? = some reader →
    reader.position = (delivered file seen).length

structure Desk.Served (pid : Int) (bytes : List UInt8) (seen : List Seen) (desk : Desk) :
    Prop where
  report : desk.report pid = .text bytes
  placed : desk.Placed seen
  begun : ∀ file reader, desk.readers[file]? = some reader → reader.pid = pid →
    delivered file seen <+: bytes

/-- What an answer copies is a chunk at the position. -/
theorem Report.answer_text {position count : Nat} {faulted : Bool} {result : Int}
    {copied : List UInt8}
    (answered : (Report.text bytes).answer position count faulted = some (result, copied)) :
    copied = chunk bytes position (if faulted then 0 else count) := by
  rw [Report.answer] at answered
  by_cases beyond : bytes.length < position
  · rw [if_pos beyond] at answered
    cases answered
    rw [chunk, List.drop_eq_nil_of_le (Nat.le_of_lt beyond), List.take_nil]
  · rw [if_neg beyond] at answered
    cases faulted with
    | true =>
        cases answered
        exact (chunk_zero bytes position).symm
    | false =>
        cases answered
        rfl

/-- Only the reader that a line is of has got something. -/
theorem delivered_other {file other : Nat} (distinct : file ≠ other) (seen : List Seen)
    (returned : Int) (copied : List UInt8) :
    delivered other (seen ++ [.read file returned copied]) = delivered other seen := by
  rw [delivered_append, delivered_read, if_neg distinct, List.append_nil]

/-- A reader is one of those that there were, or the one at the start. -/
theorem reader_of_opens {readers : List Reader} {number : Int} {file : Nat} {reader : Reader}
    (found : (readers ++ [⟨number, 0⟩])[file]? = some reader) :
    readers[file]? = some reader ∨ readers.length ≤ file ∧ reader.position = 0 := by
  by_cases earlier : file < readers.length
  · rw [List.getElem?_append_left earlier] at found
    exact .inl found
  · have behind := Nat.le_of_not_lt earlier
    rw [List.getElem?_append_right behind] at found
    rw [List.mem_singleton.mp (List.mem_of_getElem? found)]
    exact .inr ⟨behind, rfl⟩

/-- A read at an offset of its own leaves everyone where they are. -/
theorem deskStep_pread {desk next : Desk} {shown : List Seen} {file : Nat} {call : ReadCall}
    {offset : Int64} (accepted : deskStep dentries desk (.pread file call offset) =
      some (next, shown)) :
    next = desk ∧ ∀ number, delivered number shown = [] := by
  simp only [deskStep] at accepted
  split at accepted
  · cases accepted
  · split at accepted
    · cases accepted
    · obtain ⟨⟨result, copied⟩, _, pair⟩ := Option.map_eq_some_iff.mp accepted
      cases pair
      exact ⟨rfl, fun _ => rfl⟩

/-- So does a write. -/
theorem Desk.refuse_keeps {desk next : Desk} {shown : List Seen} {file : Nat} {count : UInt64}
    {faulted : Bool} {position : Reader → Nat}
    (accepted : desk.refuse file count faulted position = some (next, shown)) :
    next = desk ∧ ∀ number, delivered number shown = [] := by
  rw [Desk.refuse] at accepted
  split at accepted
  · cases accepted
  · obtain ⟨returned, _, pair⟩ := Option.map_eq_some_iff.mp accepted
    cases pair
    exact ⟨rfl, fun _ => rfl⟩

theorem deskStep_pwrite {desk next : Desk} {shown : List Seen} {file : Nat} {count : UInt64}
    {faulted : Bool} {offset : Int64}
    (accepted : deskStep dentries desk (.pwrite file count faulted offset) =
      some (next, shown)) :
    next = desk ∧ ∀ number, delivered number shown = [] := by
  simp only [deskStep] at accepted
  split at accepted
  · cases accepted
  · exact Desk.refuse_keeps accepted

theorem Desk.Placed.opens {seen : List Seen} {desk : Desk} (placed : desk.Placed seen)
    (number : Int) :
    Desk.Placed seen { desk with readers := desk.readers ++ [⟨number, 0⟩] } where
  nothing file above := by
    rw [List.length_append, List.length_singleton] at above
    exact placed.nothing file (by omega)
  position file reader found := by
    rcases reader_of_opens found with earlier | ⟨behind, start⟩
    · exact placed.position file reader earlier
    · rw [placed.nothing file behind, start]
      rfl

theorem Desk.Placed.reads {seen : List Seen} {desk : Desk} (placed : desk.Placed seen)
    {file : Nat} {reader : Reader} (found : desk.readers[file]? = some reader) (result : Int)
    (copied : List UInt8) :
    Desk.Placed (seen ++ [.read file result copied])
      { desk with
          readers := desk.readers.set file
            { reader with position := reader.position + copied.length } } where
  nothing other above := by
    rw [List.length_set] at above
    have within : file < desk.readers.length := (List.getElem?_eq_some_iff.mp found).1
    rw [delivered_other (by omega), placed.nothing other above]
  position other now place := by
    rw [List.getElem?_set] at place
    by_cases own : file = other
    · obtain ⟨within, _⟩ := List.getElem?_eq_some_iff.mp found
      rw [if_pos own, if_pos within] at place
      cases place
      rw [delivered_append, delivered_read, if_pos own, List.length_append, ← own,
        placed.position file reader found]
    · rw [if_neg own] at place
      rw [delivered_other own]
      exact placed.position other now place

/-- An act that changes nothing and is no read at `f_pos`. -/
theorem Desk.Placed.beside {seen shown : List Seen} {desk : Desk} (placed : desk.Placed seen)
    (others : ∀ number, delivered number shown = []) : desk.Placed (seen ++ shown) := by
  have same : ∀ number, delivered number (seen ++ shown) = delivered number seen := by
    intro number
    rw [delivered_append, others, List.append_nil]
  constructor
  · intro number above
    rw [same]
    exact placed.nothing number above
  · intro number reader found
    rw [same]
    exact placed.position number reader found

/-- A desk at which there is nobody. -/
theorem nobody_placed (report : Int → Report) : Desk.Placed [] ⟨report, []⟩ where
  nothing _ _ := rfl
  position _ _ place := absurd place.symm (Option.some_ne_none _)

theorem Desk.Served.opens {seen : List Seen} {desk : Desk} (served : desk.Served pid bytes seen)
    (number : Int) :
    Desk.Served pid bytes seen { desk with readers := desk.readers ++ [⟨number, 0⟩] } where
  report := served.report
  placed := served.placed.opens number
  begun file reader found same := by
    rcases reader_of_opens found with earlier | ⟨behind, _⟩
    · exact served.begun file reader earlier same
    · rw [served.placed.nothing file behind]
      exact List.nil_prefix

theorem Desk.Served.reads {seen : List Seen} {desk : Desk} (served : desk.Served pid bytes seen)
    {file : Nat} {reader : Reader} (found : desk.readers[file]? = some reader) {count : Nat}
    {faulted : Bool} {result : Int} {copied : List UInt8}
    (answered : (desk.report reader.pid).answer reader.position count faulted =
      some (result, copied)) :
    Desk.Served pid bytes (seen ++ [.read file result copied])
      { desk with
          readers := desk.readers.set file
            { reader with position := reader.position + copied.length } } where
  report := served.report
  placed := served.placed.reads found result copied
  begun other now place same := by
    rw [List.getElem?_set] at place
    by_cases own : file = other
    · obtain ⟨within, _⟩ := List.getElem?_eq_some_iff.mp found
      rw [if_pos own, if_pos within] at place
      cases place
      have start := served.begun file reader found same
      rw [show reader.pid = pid from same, served.report] at answered
      rw [delivered_append, delivered_read, if_pos own, ← own, Report.answer_text answered,
        served.placed.position file reader found]
      exact append_chunk_isPrefix start _
    · rw [if_neg own] at place
      rw [delivered_other own]
      exact served.begun other now place same

theorem Desk.Served.beside {seen shown : List Seen} {desk : Desk}
    (served : desk.Served pid bytes seen) (others : ∀ number, delivered number shown = []) :
    desk.Served pid bytes (seen ++ shown) where
  report := served.report
  placed := served.placed.beside others
  begun number reader found named := by
    rw [delivered_append, others, List.append_nil]
    exact served.begun number reader found named

theorem Desk.Served.step {seen shown : List Seen} {desk next : Desk}
    (served : desk.Served pid bytes seen) {act : Act}
    (steady : ∀ table, act = .changes table → table.report pid = .text bytes)
    (accepted : deskStep dentries desk act = some (next, shown)) :
    next.Served pid bytes (seen ++ shown) := by
  cases act with
  | opens dentry =>
      obtain ⟨number, _, pair⟩ := Option.map_eq_some_iff.mp accepted
      cases pair
      rw [List.append_nil]
      exact served.opens number
  | read file call =>
      simp only [deskStep] at accepted
      split at accepted
      · cases accepted
      · rename_i reader found
        obtain ⟨⟨result, copied⟩, answered, pair⟩ := Option.map_eq_some_iff.mp accepted
        cases pair
        exact served.reads found answered
  | pread file call offset =>
      obtain ⟨rfl, others⟩ := deskStep_pread accepted
      exact served.beside others
  | write file count faulted =>
      obtain ⟨rfl, others⟩ := Desk.refuse_keeps accepted
      exact served.beside others
  | pwrite file count faulted offset =>
      obtain ⟨rfl, others⟩ := deskStep_pwrite accepted
      exact served.beside others
  | changes table =>
      cases accepted
      rw [List.append_nil]
      exact ⟨steady table rfl, ⟨served.placed.nothing, served.placed.position⟩, served.begun⟩

theorem Desk.Placed.step {seen shown : List Seen} {desk next : Desk}
    (placed : desk.Placed seen) {act : Act}
    (accepted : deskStep dentries desk act = some (next, shown)) :
    next.Placed (seen ++ shown) := by
  cases act with
  | opens dentry =>
      obtain ⟨number, _, pair⟩ := Option.map_eq_some_iff.mp accepted
      cases pair
      rw [List.append_nil]
      exact placed.opens number
  | read file call =>
      simp only [deskStep] at accepted
      split at accepted
      · cases accepted
      · rename_i reader found
        obtain ⟨⟨result, copied⟩, answered, pair⟩ := Option.map_eq_some_iff.mp accepted
        cases pair
        exact placed.reads found result copied
  | pread file call offset =>
      obtain ⟨rfl, others⟩ := deskStep_pread accepted
      exact placed.beside others
  | write file count faulted =>
      obtain ⟨rfl, others⟩ := Desk.refuse_keeps accepted
      exact placed.beside others
  | pwrite file count faulted offset =>
      obtain ⟨rfl, others⟩ := deskStep_pwrite accepted
      exact placed.beside others
  | changes table =>
      cases accepted
      rw [List.append_nil]
      exact ⟨placed.nothing, placed.position⟩

/-- A read that is not refused goes on where the reader is. -/
theorem Desk.Served.goes_on {seen : List Seen} {desk : Desk} (served : desk.Served pid bytes seen)
    {file : Nat} {reader : Reader} (found : desk.readers[file]? = some reader)
    (same : reader.pid = pid) {call : ReadCall} (taken : call.faulted = false)
    (positive : 0 < call.count.toNat) :
    ∃ next copied,
      deskStep dentries desk (.read file call) = some (next, [.read file copied.length copied]) ∧
      delivered file seen ++ copied <+: bytes ∧
      (copied = [] ↔ delivered file seen = bytes) := by
  have start := served.begun file reader found same
  have position := served.placed.position file reader found
  have inside : ¬ bytes.length < (delivered file seen).length := Nat.not_lt.mpr start.length_le
  obtain ⟨copied, chunked⟩ :
      ∃ copied, copied = chunk bytes (delivered file seen).length call.count.toNat := ⟨_, rfl⟩
  have answered : (desk.report reader.pid).answer reader.position call.count.toNat call.faulted =
      some ((copied.length : Int), copied) := by
    rw [same, served.report, position, taken, Report.answer, if_neg inside,
      if_neg Bool.false_ne_true, chunked]
  have moved : deskStep dentries desk (.read file call) =
      some ({ desk with
          readers := desk.readers.set file
            { reader with position := reader.position + copied.length } },
        [.read file copied.length copied]) := by
    simp only [deskStep, found, answered, Option.map_some]
  refine ⟨_, copied, moved, ?_, ?_⟩
  · rw [chunked]
    exact append_chunk_isPrefix start _
  · rw [chunked, chunk_eq_nil_iff positive]
    constructor
    · exact start.eq_of_length_le
    · intro all
      exact Nat.le_of_eq (congrArg List.length all).symm

end Delivered

section Steady

variable {grants : Nat → Bool} {task : TaskStruct} {sb : SuperBlock} {table : ProcessTable}
variable {acts : List Act} {seen : List Seen} {final : Session} {pid : Int} {bytes : List UInt8}

/-- As long as the text for a pid stays, the reads of each of its open files deliver it from the
beginning, whatever else is opened and read and becomes of other tasks. -/
theorem files_deliver (granted : ∀ asked, grants asked = true) (distinct : task.labels.Nodup)
    (pids : ∀ pid ∈ task.labels, IsPid pid) (mounted : s2fsFillSuper grants task = some (0, sb))
    (first : table.report pid = .text bytes)
    (steady : ∀ later, .changes later ∈ acts → later.report pid = .text bytes)
    (run : Run sessionStep always ⟨sb.dentries, table, []⟩ acts seen final)
    {file : Nat} {opened : OpenFile} (found : final.files[file]? = some opened)
    (named : pidAt sb.dentries opened.dentry = some pid) :
    delivered file seen <+: bytes ∧ opened.fPos.toInt = (delivered file seen).length ∧
      ∀ call : ReadCall, call.faulted = false → 0 < call.count.toNat →
        ∃ next copied,
          sessionStep final (.read file call) =
            some (next, [.read file copied.length copied]) ∧
          delivered file seen ++ copied <+: bytes ∧
          (copied = [] ↔ delivered file seen = bytes) := by
  have begins : Session.At sb.dentries ⟨sb.dentries, table, []⟩ ⟨table.report, []⟩ :=
    ⟨mounted_sound granted distinct pids mounted table, rfl, rfl⟩
  have nobody : Desk.Served pid bytes [] ⟨table.report, []⟩ :=
    ⟨first, nobody_placed _, fun _ _ place => absurd place.symm (Option.some_ne_none _)⟩
  have kept := (run.of_events
      (fun act => ∀ later, act = .changes later → later.report pid = .text bytes)
      (fun act member later same => steady later (same ▸ member))).history_invariant
    (fun _ seen session => ∃ desk, session.At sb.dentries desk ∧ desk.Served pid bytes seen)
    ⟨_, begins, nobody⟩
    (fun _ shownBefore session act next shown related admitted accepted => by
      obtain ⟨desk, stands, served⟩ := related
      obtain ⟨after, moved, standsNext⟩ := stands.step accepted
      exact ⟨after, standsNext, served.step admitted moved⟩)
  obtain ⟨desk, stands, served⟩ := kept
  obtain ⟨sound, dentries, rfl⟩ := stands
  have reader : final.desk.readers[file]? = some (opened.reader final.dentries) := by
    rw [final.readers, found, Option.map_some]
  have same : (opened.reader final.dentries).pid = pid := by
    rw [OpenFile.reader, dentries, named, Option.getD_some]
  refine ⟨served.begun file _ reader same, ?_, ?_⟩
  · rw [sound.position found, served.placed.position file _ reader]
  · intro call taken positive
    obtain ⟨after, copied, moved, more, ended⟩ :=
      @Desk.Served.goes_on sb.dentries _ _ _ _ served _ _ reader same _ taken positive
    obtain ⟨next, taken, _⟩ := Session.At.back ⟨sound, dentries, rfl⟩ moved
    exact ⟨next, copied, taken, more, ended⟩

end Steady

/-! ### Writes -/

section Writes

variable {grants : Nat → Bool} {task : TaskStruct} {sb : SuperBlock} {table : ProcessTable}
variable {acts : List Act} {seen : List Seen} {final : Session}

theorem refusal_eq_none_iff {position count : Nat} {faulted : Bool} :
    refusal position count faulted = none ↔
      position = 0 ∧ count < TMPSIZE ∧ faulted = false := by
  rw [refusal]
  split
  · rename_i refused
    constructor
    · intro none
      cases none
    · rintro ⟨start, short, _⟩
      omega
  · rename_i passed
    obtain ⟨start, short⟩ := not_or.mp passed
    cases faulted with
    | true => simp
    | false => simp [not_not.mp start, Nat.lt_of_not_le short]

theorem refusal_negative {position count : Nat} {faulted : Bool} {code : Int}
    (refused : refusal position count faulted = some code) : code < 0 := by
  rw [refusal] at refused
  split at refused
  · cases refused
    decide
  · split at refused
    · cases refused
      decide
    · cases refused

/-- A write to an open file stores exactly when it is at the beginning and is short enough, and
its bytes can be copied. -/
theorem Session.writeCall_strays_iff {session : Session} {file : Nat} {opened : OpenFile}
    (found : session.files[file]? = some opened) {count : UInt64} {faulted : Bool}
    {offset : OpenFile → Int64} {position : Nat} (place : (offset opened).toInt = position) :
    session.writeCall file count faulted offset = none ↔
      position = 0 ∧ count.toNat < TMPSIZE ∧ faulted = false := by
  rw [← refusal_eq_none_iff, ← s2fsWriteFile_refuses place]
  simp only [Session.writeCall, found, Option.map_eq_none_iff]

/-- All that a write returns is a negative code. -/
theorem Session.writeCall_refused {session next : Session} {file : Nat} {opened : OpenFile}
    (found : session.files[file]? = some opened) {count : UInt64} {faulted : Bool}
    {offset : OpenFile → Int64} {position : Nat} (place : (offset opened).toInt = position)
    {shown : List Seen}
    (accepted : session.writeCall file count faulted offset = some (next, shown)) :
    next = session ∧ ∃ code, code < 0 ∧ shown = [.wrote file code] := by
  have refuses := @s2fsWriteFile_refuses count _ faulted _ place
  simp only [Session.writeCall, found] at accepted
  obtain ⟨returned, refused, pair⟩ := Option.map_eq_some_iff.mp accepted
  cases pair
  rw [refused] at refuses
  exact ⟨rfl, _, refusal_negative refuses.symm, rfl⟩

/-- No write to a file of the mount does what it is asked.  A write at `f_pos` stores through the
pointer into the call that made the inode exactly when the file's own reads have got nothing so
far, fewer than `TMPSIZE` bytes are written and they can be copied, and a write at an offset of
its own exactly when that is 0 in the place of the first; else it is refused, and nothing has
changed. -/
theorem write_strays_iff (granted : ∀ asked, grants asked = true) (distinct : task.labels.Nodup)
    (pids : ∀ pid ∈ task.labels, IsPid pid) (mounted : s2fsFillSuper grants task = some (0, sb))
    (run : Run sessionStep always ⟨sb.dentries, table, []⟩ acts seen final)
    {file : Nat} (isOpen : file < final.files.length) (count : UInt64) (faulted : Bool) :
    (sessionStep final (.write file count faulted) = none ↔
      delivered file seen = [] ∧ count.toNat < TMPSIZE ∧ faulted = false) ∧
    (∀ offset : Int64, 0 ≤ offset.toInt →
      (sessionStep final (.pwrite file count faulted offset) = none ↔
        offset = 0 ∧ count.toNat < TMPSIZE ∧ faulted = false)) ∧
    ∀ act next shown,
      act = .write file count faulted ∨ (∃ offset, act = .pwrite file count faulted offset) →
      sessionStep final act = some (next, shown) →
      next = final ∧ ∃ code, code < 0 ∧ shown = [.wrote file code] := by
  have begins : Session.At sb.dentries ⟨sb.dentries, table, []⟩ ⟨table.report, []⟩ :=
    ⟨mounted_sound granted distinct pids mounted table, rfl, rfl⟩
  obtain ⟨desk, stands, placed⟩ := run.history_invariant
    (fun _ seen session => ∃ desk, session.At sb.dentries desk ∧ desk.Placed seen)
    ⟨_, begins, nobody_placed _⟩
    (fun _ shownBefore session act next shown related _ accepted => by
      obtain ⟨desk, stands, placed⟩ := related
      obtain ⟨after, moved, standsNext⟩ := stands.step accepted
      exact ⟨after, standsNext, placed.step moved⟩)
  obtain ⟨sound, dentries, rfl⟩ := stands
  have found : final.files[file]? = some final.files[file] := List.getElem?_eq_getElem isOpen
  have reader : final.desk.readers[file]? =
      some ((final.files[file]).reader final.dentries) := by
    rw [final.readers, found, Option.map_some]
  have position := sound.position found
  rw [placed.position file _ reader] at position
  refine ⟨?_, ?_, ?_⟩
  · have strays := @Session.writeCall_strays_iff final file _ found count faulted OpenFile.fPos _
      position
    rwa [List.length_eq_zero_iff] at strays
  · intro offset nonneg
    have place : offset.toInt = (offset.toInt.toNat : Nat) := (Int.toNat_of_nonneg nonneg).symm
    have start : offset.toInt.toNat = 0 ↔ offset = 0 := by
      rw [← Int64.toInt_inj, Int64.toInt_zero]
      omega
    have strays := @Session.writeCall_strays_iff final file _ found count faulted
      (fun _ => offset) _ place
    rw [start] at strays
    simp only [sessionStep, if_neg (Int.not_lt.mpr nonneg)]
    exact strays
  · rintro act next shown (rfl | ⟨offset, rfl⟩) accepted
    · exact Session.writeCall_refused found position accepted
    · simp only [sessionStep] at accepted
      split at accepted
      · cases accepted
      · rename_i nonneg
        exact Session.writeCall_refused found
          (Int.toNat_of_nonneg (Int.not_lt.mp nonneg)).symm accepted

end Writes

/-! ### Two open files of `systemd` -/

def swapperTasks : TaskStruct := .node 0 [.node 1 [], .node 2 []]

def swapperMount : List Dentry := rootDentryOf 0 :: blockOf swapperTasks 0 1

def laterTable : ProcessTable :=
  { startedTable with findGetPid := fun pid => if pid = 1 then some 1 else none }

def interleavedReads : List Act :=
  [.opens 3, .opens 3, .read 0 ⟨10, false, fun _ => 7⟩, .changes laterTable,
    .read 1 ⟨4, false, fun _ => 8⟩, .pread 0 ⟨5, false, fun _ => 9⟩ 3,
    .read 0 ⟨100, true, fun _ => 0⟩]

private theorem interleavedReads_run :
    (execute sessionStep (fun _ _ => true) ⟨swapperMount, startedTable, []⟩
      interleavedReads).isSome = true := by
  decide +kernel

private theorem swapperTasks_pids : ∀ pid ∈ swapperTasks.labels, IsPid pid := by
  simp [swapperTasks, IsPid]

private theorem swapperTasks_distinct : swapperTasks.labels.Nodup := by
  simp [swapperTasks]

theorem sessions_refine_interleaved :
    ∃ sb, s2fsFillSuper (fun _ => true) swapperTasks = some (0, sb) ∧
      (∀ final, Run sessionStep always ⟨sb.dentries, startedTable, []⟩ interleavedReads
          ((execute sessionStep (fun _ _ => true) ⟨swapperMount, startedTable, []⟩
            interleavedReads).get interleavedReads_run).2 final →
        Run (deskStep sb.dentries) always ⟨startedTable.report, []⟩ interleavedReads
          ((execute sessionStep (fun _ _ => true) ⟨swapperMount, startedTable, []⟩
            interleavedReads).get interleavedReads_run).2 final.desk) ∧
      ∀ desk, Run (deskStep sb.dentries) always ⟨startedTable.report, []⟩ interleavedReads
          ((execute sessionStep (fun _ _ => true) ⟨swapperMount, startedTable, []⟩
            interleavedReads).get interleavedReads_run).2 desk →
        ∃ final, Run sessionStep always ⟨sb.dentries, startedTable, []⟩ interleavedReads
          ((execute sessionStep (fun _ _ => true) ⟨swapperMount, startedTable, []⟩
            interleavedReads).get interleavedReads_run).2 final ∧ final.desk = desk := by
  obtain ⟨requests, mounted⟩ := s2fsFillSuper_granted (fun _ => rfl) swapperTasks
  exact ⟨_, mounted, sessions_refine (fun _ => rfl) swapperTasks_distinct swapperTasks_pids mounted
    startedTable interleavedReads _⟩

/-- Both readers have got the beginning of the text. -/
theorem files_deliver_interleaved :
    ∃ seen final opened, Run sessionStep always ⟨swapperMount, startedTable, []⟩ interleavedReads
        seen final ∧ final.files[0]? = some opened ∧
      delivered 0 seen <+: taskInfoText (startedTable.tasks 1) (startedTable.tasks 0)
        ⟨0, 0, 1, 1, 1⟩ ∧
      opened.fPos.toInt = ((delivered 0 seen).length : Int) ∧
      ∀ call : ReadCall, call.faulted = false → 0 < call.count.toNat →
        ∃ next copied,
          sessionStep final (.read 0 call) =
            some (next, [.read 0 (copied.length : Int) copied]) ∧
          delivered 0 seen ++ copied <+: taskInfoText (startedTable.tasks 1)
            (startedTable.tasks 0) ⟨0, 0, 1, 1, 1⟩ ∧
          (copied = [] ↔ delivered 0 seen = taskInfoText (startedTable.tasks 1)
            (startedTable.tasks 0) ⟨0, 0, 1, 1, 1⟩) := by
  obtain ⟨requests, mounted⟩ := s2fsFillSuper_granted (fun _ => rfl) swapperTasks
  have run : Run sessionStep always ⟨swapperMount, startedTable, []⟩ interleavedReads _ _ :=
    (Run.of_executes _ interleavedReads_run).weaken (fun _ _ _ => trivial)
  have first : (((execute sessionStep (fun _ _ => true) ⟨swapperMount, startedTable, []⟩
      interleavedReads).get interleavedReads_run).1.files[0]?).map OpenFile.dentry = some 3 := by
    decide +kernel
  obtain ⟨opened, found, third⟩ := Option.map_eq_some_iff.mp first
  have named : pidAt swapperMount opened.dentry = some 1 := by
    rw [third]
    decide
  have steady : ∀ later, .changes later ∈ interleavedReads → later.report 1 =
      .text (taskInfoText (startedTable.tasks 1) (startedTable.tasks 0) ⟨0, 0, 1, 1, 1⟩) := by
    intro later member
    simp only [interleavedReads, List.mem_cons, List.not_mem_nil, Act.changes.injEq, reduceCtorEq,
      false_or, or_false] at member
    rw [member]
    rfl
  exact ⟨_, _, opened, run, found, files_deliver (fun _ => rfl) swapperTasks_distinct
    swapperTasks_pids mounted rfl steady run found named⟩

/-- The first of the two readers has read: a write at its `f_pos` is refused, and one at the
beginning of the file is not. -/
theorem write_strays_iff_interleaved :
    ∃ seen final, Run sessionStep always ⟨swapperMount, startedTable, []⟩ interleavedReads
        seen final ∧
      (sessionStep final (.write 0 5 false) = none ↔
        delivered 0 seen = [] ∧ (5 : UInt64).toNat < TMPSIZE ∧ false = false) ∧
      (∀ offset : Int64, 0 ≤ offset.toInt →
        (sessionStep final (.pwrite 0 5 false offset) = none ↔
          offset = 0 ∧ (5 : UInt64).toNat < TMPSIZE ∧ false = false)) ∧
      ∀ act next shown, act = .write 0 5 false ∨ (∃ offset, act = .pwrite 0 5 false offset) →
        sessionStep final act = some (next, shown) →
        next = final ∧ ∃ code, code < 0 ∧ shown = [.wrote 0 code] := by
  obtain ⟨requests, mounted⟩ := s2fsFillSuper_granted (fun _ => rfl) swapperTasks
  have run : Run sessionStep always ⟨swapperMount, startedTable, []⟩ interleavedReads _ _ :=
    (Run.of_executes _ interleavedReads_run).weaken (fun _ _ _ => trivial)
  have isOpen : 0 < ((execute sessionStep (fun _ _ => true) ⟨swapperMount, startedTable, []⟩
      interleavedReads).get interleavedReads_run).1.files.length := by
    decide +kernel
  exact ⟨_, _, run, write_strays_iff (fun _ => rfl) swapperTasks_distinct swapperTasks_pids mounted
    run isOpen 5 false⟩

end LKP.S2fs
