import LKP.Proj4.ProcTree
import LKP.S2fs.FailedMount

/-
What a mount of `s2fs` leaves in the kernel log.

`recursive_add` prints the line of a task as `recursive_search` of `proj4.c` does, and
`s2fs_make_inode` prints a pid for every inode.  So the log of a mount is the listing of
proj4 with the pids of the new files and directories in between, and when an allocation
fails it is what there is of both.
-/

set_option autoImplicit false

namespace LKP.S2fs

open TreeMirror Proj4

/-! ### The log -/

/-- One `printk` of a mount; the loop that indents a line is taken together with the line. -/
inductive LogLine
  | inode (pid : Int)
  | entry (space : Nat) (task : Task)
  | failure (message : List Char)

def LogLine.text : LogLine → List UInt8
  | .inode pid => ascii "pid ".toList ++ percentD pid ++ ascii "\n".toList
  | .failure message => ascii message
  | .entry space task =>
      indentLoop 1 space ++
        (ascii "-".toList ++ task.comm ++ ascii " [".toList ++ percentD task.pid.toInt ++
          ascii "]\n".toList)

def LogLine.isEntry : LogLine → Bool
  | .entry _ _ => true
  | _ => false

/-- A call with what it prints; without a result it is an oops. -/
structure Logged (Result : Type) where
  log : List LogLine
  result : Option Result

def Logged.andThen {Result Other : Type} (first : Logged Result) (next : Result → Logged Other) :
    Logged Other :=
  match first.result with
  | none => ⟨first.log, none⟩
  | some result => ⟨first.log ++ (next result).log, (next result).result⟩

mutual

def pidsOfTree : Proj4.TaskStruct → TaskStruct
  | .node task children => .node task.pid.toInt (pidsOfForest children)

def pidsOfForest : List Proj4.TaskStruct → List TaskStruct
  | [] => []
  | tree :: rest => pidsOfTree tree :: pidsOfForest rest

end

section Mount

variable (grants : Nat → Bool)

def s2fsMakeInodeLogged (sb : SuperBlock) (mode : Nat) (pid : Int) :
    Logged (Option Inode × SuperBlock) :=
  match request grants sb with
  | (false, sb) => ⟨[], some (none, sb)⟩
  | (true, sb) => ⟨[.inode pid], some (some ⟨mode, pid⟩, sb)⟩

/-- `s2fs_create_dir` and `s2fs_create_file`, which print nothing themselves. -/
def s2fsCreateLogged (mode : Nat) (sb : SuperBlock) (parent : Option Nat) (name : List Char)
    (pid : Int) : Logged (Option Nat × SuperBlock) :=
  match parent with
  | none => ⟨[], none⟩
  | some parent =>
      match dAlloc grants sb parent name with
      | (none, sb) => ⟨[], some (none, sb)⟩
      | (some dentry, sb) =>
          (s2fsMakeInodeLogged grants sb mode pid).andThen (fun (inode, sb) =>
            match inode with
            | none => ⟨[], some (none, sb)⟩
            | some inode =>
                let (index, sb) := dAdd sb (dentry inode)
                ⟨[], some (some index, sb)⟩)

mutual

def recursiveAddLogged : Proj4.TaskStruct → Nat → SuperBlock → Option Nat → Logged SuperBlock
  | .node task children, space, sb, rootd =>
      let pid := task.pid.toInt
      let fileName := snprintf 10 (percentI pid)
      let printed : Logged Unit := ⟨[.entry space task], some ()⟩
      printed.andThen (fun _ =>
        if children.isEmpty then
          (s2fsCreateLogged grants 0x8000 sb rootd fileName pid).andThen (fun (_, sb) =>
            ⟨[], some sb⟩)
        else
          (s2fsCreateLogged grants (S_IFDIR ||| 0o644) sb rootd fileName pid).andThen
            (fun (subDentry, sb) =>
              (s2fsCreateLogged grants 0x8000 sb subDentry fileName pid).andThen (fun (_, sb) =>
                addChildrenLogged children (space + 1) sb subDentry)))

def addChildrenLogged :
    List Proj4.TaskStruct → Nat → SuperBlock → Option Nat → Logged SuperBlock
  | [], _, sb, _ => ⟨[], some sb⟩
  | holderTask :: list, spaceNum, sb, subDentry =>
      (recursiveAddLogged holderTask spaceNum sb subDentry).andThen (fun sb =>
        addChildrenLogged list spaceNum sb subDentry)

end

def s2fsFillSuperLogged (task : Proj4.TaskStruct) : Logged (Int × SuperBlock) :=
  (s2fsMakeInodeLogged grants ⟨[], 0⟩ (S_IFDIR ||| 0o755) task.label.pid.toInt).andThen
    (fun (root, sb) =>
      match root with
      | none => ⟨[.failure "inode allocation failed\n".toList], some (-12, sb)⟩
      | some root =>
          match dMakeRoot grants sb root with
          | (none, sb) => ⟨[.failure "root creation failed\n".toList], some (-12, sb)⟩
          | (some rootDentry, sb) =>
              (recursiveAddLogged grants task 0 sb (some rootDentry)).andThen (fun sb =>
                ⟨[], some (0, sb)⟩))

end Mount

/-! ### What is in it -/

def tasksPrinted (log : List LogLine) : List (Nat × Task) :=
  log.filterMap (fun printed =>
    match printed with
    | .entry space task => some (space, task)
    | _ => none)

def pidsPrinted (log : List LogLine) : List Int :=
  log.filterMap (fun printed =>
    match printed with
    | .inode pid => some pid
    | _ => none)

/-- What a part of a mount prints: the lines of its tasks, as far as it comes, and the pids of
the dentries that it adds. -/
structure Recorded (listing : List (Nat × Task)) (sb : SuperBlock)
    (logged : Logged SuperBlock) : Prop where
  begun : tasksPrinted logged.log <+: listing
  whole : ∀ after, logged.result = some after → tasksPrinted logged.log = listing
  added : ∀ after, logged.result = some after → ∃ more, after.dentries = sb.dentries ++ more ∧
    pidsPrinted logged.log = more.map (fun dentry => dentry.inode.iPrivate)

theorem tasksPrinted_append (earlier later : List LogLine) :
    tasksPrinted (earlier ++ later) = tasksPrinted earlier ++ tasksPrinted later :=
  List.filterMap_append

theorem pidsPrinted_append (earlier later : List LogLine) :
    pidsPrinted (earlier ++ later) = pidsPrinted earlier ++ pidsPrinted later :=
  List.filterMap_append

/-- The line of a task is the one that `recursive_search` prints. -/
theorem entry_text (space : Nat) (task : Task) :
    (LogLine.entry space task).text = line (space, task) ++ [10] := by
  have alone := recursiveSearch_eq (.node task []) space
  rw [recursiveSearch, searchChildren, List.append_nil, LabelTree.listed, listedAll_nil,
    List.flatMap_singleton] at alone
  exact alone

/-- The lines of tasks make the text of their listing. -/
theorem tasksPrinted_text (log : List LogLine) :
    (tasksPrinted log).flatMap (fun entry => line entry ++ [10]) =
      (log.filter LogLine.isEntry).flatMap LogLine.text := by
  induction log with
  | nil => rfl
  | cons printed rest ih =>
      cases printed with
      | entry space task =>
          exact congrArg₂ (· ++ ·) (entry_text space task).symm ih
      | inode pid => exact ih
      | failure message => exact ih

section Calls

variable {grants : Nat → Bool}

theorem andThen_none {Result Other : Type} {first : Logged Result} (oops : first.result = none)
    (next : Result → Logged Other) : first.andThen next = ⟨first.log, none⟩ := by
  rw [Logged.andThen, oops]

theorem andThen_some {Result Other : Type} {first : Logged Result} {result : Result}
    (returned : first.result = some result) (next : Result → Logged Other) :
    first.andThen next = ⟨first.log ++ (next result).log, (next result).result⟩ := by
  rw [Logged.andThen, returned]

/-- A creation prints the pid of what it adds, and is otherwise as it is without the log. -/
theorem s2fsCreateLogged_cases (mode : Nat) (sb : SuperBlock) (parent : Nat)
    (name : List Char) (pid : Int) :
    (s2fsCreateLogged grants mode sb (some parent) name pid).result =
        s2fsCreate grants mode sb (some parent) name pid ∧
      ∃ after : SuperBlock,
        (s2fsCreateLogged grants mode sb (some parent) name pid = ⟨[], some (none, after)⟩ ∧
          after.dentries = sb.dentries) ∨
        (s2fsCreateLogged grants mode sb (some parent) name pid =
            ⟨[.inode pid], some (some sb.dentries.length, after)⟩ ∧
          after.dentries = sb.dentries ++ [⟨some parent, name, ⟨mode, pid⟩⟩]) := by
  cases allocated : grants sb.requests with
  | false =>
      simp only [s2fsCreateLogged, s2fsCreate, dAlloc, request, allocated]
      exact ⟨trivial, _, .inl ⟨rfl, rfl⟩⟩
  | true =>
      cases made : grants (sb.requests + 1) with
      | false =>
          simp only [s2fsCreateLogged, s2fsCreate, dAlloc, request, allocated, s2fsMakeInodeLogged,
            s2fsMakeInode, made, Logged.andThen]
          exact ⟨trivial, _, .inl ⟨rfl, rfl⟩⟩
      | true =>
          simp only [s2fsCreateLogged, s2fsCreate, dAlloc, request, allocated, s2fsMakeInodeLogged,
            s2fsMakeInode, made, Logged.andThen]
          exact ⟨trivial, _, .inr ⟨rfl, rfl⟩⟩

/-- What is printed for a task before those below it. -/
theorem Recorded.under {listing : List (Nat × Task)} {sb between : SuperBlock}
    {below : Logged SuperBlock} (recorded : Recorded listing between below)
    (log : List LogLine) (here : List Dentry) (between_ : between.dentries = sb.dentries ++ here)
    {entry : Nat × Task} (task : tasksPrinted log = [entry])
    (pids : pidsPrinted log = here.map (fun dentry => dentry.inode.iPrivate)) :
    Recorded (entry :: listing) sb ⟨log ++ below.log, below.result⟩ where
  begun := by
    rw [tasksPrinted_append, task]
    exact List.cons_prefix_cons.mpr ⟨rfl, recorded.begun⟩
  whole after returned := by
    rw [tasksPrinted_append, task, recorded.whole after returned]
    rfl
  added after returned := by
    obtain ⟨more, added, printed⟩ := recorded.added after returned
    refine ⟨here ++ more, ?_, ?_⟩
    · rw [added, between_, List.append_assoc]
    · rw [pidsPrinted_append, pids, printed, List.map_append]

/-- Nothing more is printed, and nothing added. -/
theorem recorded_end (sb : SuperBlock) : Recorded [] sb ⟨[], some sb⟩ where
  begun := List.nil_prefix
  whole _ _ := rfl
  added after returned := by
    cases returned
    exact ⟨[], (List.append_nil _).symm, rfl⟩

/-- Two parts of a mount, one after the other. -/
theorem Recorded.andThen {listing others : List (Nat × Task)} {sb : SuperBlock}
    {first : Logged SuperBlock} (recorded : Recorded listing sb first)
    {next : SuperBlock → Logged SuperBlock} (rest : ∀ between, Recorded others between (next between)) :
    Recorded (listing ++ others) sb (first.andThen next) := by
  cases returned : first.result with
  | none =>
      rw [andThen_none returned]
      exact ⟨recorded.begun.trans (List.prefix_append listing others), fun _ never => (nomatch never),
        fun _ never => (nomatch never)⟩
  | some between =>
      rw [andThen_some returned]
      have listed := recorded.whole between returned
      obtain ⟨here, added, printed⟩ := recorded.added between returned
      constructor
      · rw [tasksPrinted_append, listed]
        exact (List.prefix_append_right_inj listing).mpr (rest between).begun
      · intro after ended
        rw [tasksPrinted_append, listed, (rest between).whole after ended]
      · intro after ended
        obtain ⟨more, later, printedLater⟩ := (rest between).added after ended
        refine ⟨here ++ more, ?_, ?_⟩
        · rw [later, added, List.append_assoc]
        · rw [pidsPrinted_append, printed, printedLater, List.map_append]

mutual

/-- `recursive_add` does with its log what it does without, and records what it does. -/
theorem recursiveAddLogged_recorded : ∀ (task : Proj4.TaskStruct) (space : Nat)
    (sb : SuperBlock) (rootd : Nat),
    (recursiveAddLogged grants task space sb (some rootd)).result =
        recursiveAdd grants (pidsOfTree task) sb (some rootd) ∧
      Recorded (task.listed space) sb (recursiveAddLogged grants task space sb (some rootd))
  | .node task [], space, sb, rootd => by
      obtain ⟨erased, after, outcome⟩ := @s2fsCreateLogged_cases grants 0x8000 sb rootd
        (snprintf 10 (percentI task.pid.toInt)) task.pid.toInt
      have nothing := recorded_end after
      rw [LabelTree.listed, listedAll_nil, pidsOfTree, pidsOfForest]
      simp only [recursiveAddLogged, recursiveAdd, List.isEmpty_nil, if_true, s2fsCreateFile,
        ← erased]
      rcases outcome with ⟨created, same⟩ | ⟨created, added⟩
      · have kept : after.dentries = sb.dentries ++ [] := same.trans (List.append_nil _).symm
        rw [created]
        exact ⟨rfl, nothing.under [.entry space task] [] kept rfl rfl⟩
      · rw [created]
        exact ⟨rfl, nothing.under [.entry space task, .inode task.pid.toInt]
          [fileDentry rootd task.pid.toInt] added rfl rfl⟩
  | .node task (child :: rest), space, sb, rootd => by
      obtain ⟨erased, directory, outcome⟩ := @s2fsCreateLogged_cases grants (S_IFDIR ||| 0o644) sb
        rootd (snprintf 10 (percentI task.pid.toInt)) task.pid.toInt
      obtain ⟨erasedFile, after, filed⟩ := @s2fsCreateLogged_cases grants 0x8000 directory
        sb.dentries.length (snprintf 10 (percentI task.pid.toInt)) task.pid.toInt
      have below := addChildrenLogged_recorded (child :: rest) (space + 1) after sb.dentries.length
      rw [LabelTree.listed, pidsOfTree]
      simp only [recursiveAddLogged, recursiveAdd, List.isEmpty_cons, pidsOfForest,
        Bool.false_eq_true, if_false, s2fsCreateDir, s2fsCreateFile, ← erased]
      rcases outcome with ⟨created, _⟩ | ⟨created, made⟩
      · -- the null result is passed to `s2fs_create_file`
        rw [created]
        refine ⟨rfl, ?_, fun _ never => (nomatch never), fun _ never => (nomatch never)⟩
        exact List.cons_prefix_cons.mpr ⟨rfl, List.nil_prefix⟩
      · simp only [created, Logged.andThen, ← erasedFile]
        rcases filed with ⟨file, same⟩ | ⟨file, added⟩
        · rw [file]
          exact ⟨below.1, below.2.under [.entry space task, .inode task.pid.toInt]
            [dirDentry rootd task.pid.toInt] (same.trans made) rfl rfl⟩
        · have both : after.dentries = sb.dentries ++
              [dirDentry rootd task.pid.toInt, fileDentry sb.dentries.length task.pid.toInt] := by
            rw [added, made, List.append_assoc]
            rfl
          rw [file]
          exact ⟨below.1, below.2.under
            [.entry space task, .inode task.pid.toInt, .inode task.pid.toInt]
            [dirDentry rootd task.pid.toInt, fileDentry sb.dentries.length task.pid.toInt] both rfl
            rfl⟩

theorem addChildrenLogged_recorded : ∀ (forest : List Proj4.TaskStruct) (space : Nat)
    (sb : SuperBlock) (subDentry : Nat),
    (addChildrenLogged grants forest space sb (some subDentry)).result =
        addChildren grants (pidsOfForest forest) sb (some subDentry) ∧
      Recorded (listedAll space forest) sb
        (addChildrenLogged grants forest space sb (some subDentry))
  | [], space, sb, subDentry => by
      rw [listedAll_nil, pidsOfForest, addChildren, addChildrenLogged]
      exact ⟨rfl, recorded_end sb⟩
  | holderTask :: list, space, sb, subDentry => by
      obtain ⟨erased, recorded⟩ := recursiveAddLogged_recorded holderTask space sb subDentry
      have later := fun between => addChildrenLogged_recorded list space between subDentry
      rw [listedAll_cons, pidsOfForest, addChildrenLogged, addChildren, ← erased]
      constructor
      · cases returned : (recursiveAddLogged grants holderTask space sb
            (some subDentry)).result with
        | none => rw [andThen_none returned]
        | some between =>
            rw [andThen_some returned]
            exact (later between).1
      · exact recorded.andThen (fun between => (later between).2)

end

end Calls

/-! ### A mount -/

theorem pidsOfTree_label (task : Proj4.TaskStruct) :
    (pidsOfTree task).label = task.label.pid.toInt := by
  cases task with
  | node task children =>
      rw [pidsOfTree]
      rfl

/-- With the root made, the log is a pid and that of `recursive_add`. -/
theorem s2fsFillSuperLogged_rootMade {grants : Nat → Bool} (inode : grants 0 = true)
    (dentry : grants 1 = true) (task : Proj4.TaskStruct) :
    s2fsFillSuperLogged grants task =
      ⟨.inode task.label.pid.toInt ::
          (recursiveAddLogged grants task 0 (rootMade (pidsOfTree task)) (some 0)).log,
        (recursiveAddLogged grants task 0 (rootMade (pidsOfTree task)) (some 0)).result.map
          (fun sb => (0, sb))⟩ := by
  have root : rootMade (pidsOfTree task) =
      ⟨[⟨none, ['/'], ⟨S_IFDIR ||| 0o755, task.label.pid.toInt⟩⟩], 2⟩ := by
    rw [rootMade, rootDentryOf, pidsOfTree_label]
  rw [root]
  simp only [s2fsFillSuperLogged, s2fsMakeInodeLogged, request, inode, dMakeRoot, dentry, dAdd,
    Logged.andThen, List.nil_append, List.length_nil]
  cases (recursiveAddLogged grants task 0
      ⟨[⟨none, ['/'], ⟨S_IFDIR ||| 0o755, task.label.pid.toInt⟩⟩], 2⟩ (some 0)).result with
  | none => rfl
  | some sb => simp only [List.append_nil, Option.map_some, List.cons_append, List.nil_append]

/-- Whatever is allocated, a mount does with its log what it does without; it lists the tasks
as proj4 does, up to where it comes, and after a mount that succeeds the log is the listing of
proj4 and the pids of all that was made, in the order in which it was made. -/
theorem mount_log (grants : Nat → Bool) (task : Proj4.TaskStruct) :
    (s2fsFillSuperLogged grants task).result = s2fsFillSuper grants (pidsOfTree task) ∧
      tasksPrinted (s2fsFillSuperLogged grants task).log <+: task.listed 0 ∧
      ∀ sb, (s2fsFillSuperLogged grants task).result = some (0, sb) →
        ((s2fsFillSuperLogged grants task).log.filter LogLine.isEntry).flatMap LogLine.text =
          recursiveSearch task 0 ∧
        pidsPrinted (s2fsFillSuperLogged grants task).log =
          sb.dentries.map (fun dentry => dentry.inode.iPrivate) := by
  have root := pidsOfTree_label task
  cases made : grants 0 with
  | false =>
      simp only [s2fsFillSuperLogged, s2fsFillSuper, s2fsMakeInodeLogged, s2fsMakeInode, request,
        made, Logged.andThen]
      refine ⟨trivial, List.nil_prefix, fun sb returned => ?_⟩
      cases returned
  | true =>
      cases rooted : grants 1 with
      | false =>
          simp only [s2fsFillSuperLogged, s2fsFillSuper, s2fsMakeInodeLogged, s2fsMakeInode,
            request, made, dMakeRoot, rooted, Logged.andThen]
          refine ⟨trivial, List.nil_prefix, fun sb returned => ?_⟩
          cases returned
      | true =>
          obtain ⟨erased, recorded⟩ := @recursiveAddLogged_recorded grants task 0
            (rootMade (pidsOfTree task)) 0
          rw [s2fsFillSuperLogged_rootMade made rooted, s2fsFillSuper_rootMade made rooted, erased]
          refine ⟨rfl, recorded.begun, fun sb returned => ?_⟩
          obtain ⟨after, ended, pair⟩ := Option.map_eq_some_iff.mp returned
          cases pair
          rw [← erased] at ended
          obtain ⟨more, added, printed⟩ := recorded.added sb ended
          constructor
          · rw [recursiveSearch_eq, ← recorded.whole sb ended, tasksPrinted_text]
            rfl
          · have first : (rootMade (pidsOfTree task)).dentries.map
                (fun dentry => dentry.inode.iPrivate) = [task.label.pid.toInt] := by
              rw [← root]
              rfl
            rw [added, List.map_append, ← printed, first]
            rfl

end LKP.S2fs
