import LKP.S2fs.Mount

/-
A mount in which an allocation fails.

Each creation undoes what it has done, but its null result is handed on to the calls for
the children, and nobody looks at the result of a file.  The requests for memory come two
for each dentry, so that the first one denied decides what the mount lacks.
-/

set_option autoImplicit false

namespace LKP.S2fs

open TreeMirror

/-! ### A creation, step by step -/

/-- A dentry from `d_alloc` on, when its parent lists it already; `d_add` gives it an inode. -/
structure AllocatedDentry where
  parent : Option Nat
  dName : List Char
  inode : Option Inode
deriving DecidableEq

structure Dcache where
  dentries : List AllocatedDentry
  requests : Nat

section Creation

variable (grants : Nat → Bool)

def Dcache.dAlloc (cache : Dcache) (parent : Nat) (qname : List Char) : Option Nat × Dcache :=
  if grants cache.requests then
    (some cache.dentries.length,
      ⟨cache.dentries ++ [⟨some parent, qname, none⟩], cache.requests + 1⟩)
  else (none, { cache with requests := cache.requests + 1 })

def Dcache.makeInode (cache : Dcache) (mode : Nat) (pid : Int) : Option Inode × Dcache :=
  (if grants cache.requests then some ⟨mode, pid⟩ else none,
    { cache with requests := cache.requests + 1 })

def Dcache.dAdd (cache : Dcache) (dentry : Nat) (inode : Inode) : Dcache :=
  { cache with dentries := cache.dentries.modify dentry (fun allocated =>
      { allocated with inode := some inode }) }

def Dcache.dput (cache : Dcache) (dentry : Nat) : Dcache :=
  { cache with dentries := cache.dentries.eraseIdx dentry }

/-- The body of `s2fs_create_dir` and `s2fs_create_file`, with its way out over `out_dput`. -/
def Dcache.create (cache : Dcache) (mode : Nat) (parent : Option Nat) (name : List Char)
    (pid : Int) : Option (Option Nat × Dcache) :=
  match parent with
  | none => none
  | some parent =>
      match cache.dAlloc grants parent name with
      | (none, cache) => some (none, cache)
      | (some dentry, cache) =>
          match cache.makeInode grants mode pid with
          | (none, cache) => some (none, cache.dput dentry)
          | (some inode, cache) => some (some dentry, cache.dAdd dentry inode)

def SuperBlock.cached (sb : SuperBlock) : Dcache :=
  ⟨sb.dentries.map (fun dentry => ⟨dentry.parent, dentry.dName, some dentry.inode⟩), sb.requests⟩

theorem modify_last {Item : Type} (items : List Item) (last : Item) (change : Item → Item) :
    (items ++ [last]).modify items.length change = items ++ [change last] := by
  induction items with
  | nil => rfl
  | cons item rest ih =>
      rw [List.cons_append, List.length_cons, List.modify_succ_cons, ih, List.cons_append]

theorem eraseIdx_last {Item : Type} (items : List Item) (last : Item) :
    (items ++ [last]).eraseIdx items.length = items := by
  rw [List.eraseIdx_append_of_length_le (Nat.le_refl _), Nat.sub_self]
  exact List.append_nil items

section Outcomes

variable {grants : Nat → Bool} (mode : Nat) (parent : Nat) (name : List Char) (pid : Int)

theorem create_denied {cache : Dcache} (denied : grants cache.requests = false) :
    cache.create grants mode (some parent) name pid =
      some (none, ⟨cache.dentries, cache.requests + 1⟩) := by
  simp only [Dcache.create, Dcache.dAlloc, denied, Bool.false_eq_true, if_false]

theorem create_unmade {cache : Dcache} (allocated : grants cache.requests = true)
    (unmade : grants (cache.requests + 1) = false) :
    cache.create grants mode (some parent) name pid =
      some (none, ⟨cache.dentries, cache.requests + 2⟩) := by
  simp only [Dcache.create, Dcache.dAlloc, Dcache.makeInode, Dcache.dput, allocated, unmade,
    if_true, Bool.false_eq_true, if_false, eraseIdx_last]

theorem create_made {cache : Dcache} (allocated : grants cache.requests = true)
    (made : grants (cache.requests + 1) = true) :
    cache.create grants mode (some parent) name pid =
      some (some cache.dentries.length,
        ⟨cache.dentries ++ [⟨some parent, name, some ⟨mode, pid⟩⟩], cache.requests + 2⟩) := by
  simp only [Dcache.create, Dcache.dAlloc, Dcache.makeInode, Dcache.dAdd, allocated, made,
    if_true, modify_last]

theorem s2fsCreate_denied {sb : SuperBlock} (denied : grants sb.requests = false) :
    s2fsCreate grants mode sb (some parent) name pid =
      some (none, ⟨sb.dentries, sb.requests + 1⟩) := by
  simp only [s2fsCreate, dAlloc, request, denied]

theorem s2fsCreate_unmade {sb : SuperBlock} (allocated : grants sb.requests = true)
    (unmade : grants (sb.requests + 1) = false) :
    s2fsCreate grants mode sb (some parent) name pid =
      some (none, ⟨sb.dentries, sb.requests + 2⟩) := by
  simp only [s2fsCreate, dAlloc, s2fsMakeInode, request, allocated, unmade]

end Outcomes

theorem Granted.two {grants : Nat → Bool} {sb : SuperBlock}
    (allocated : grants sb.requests = true) (made : grants (sb.requests + 1) = true) :
    Granted grants sb 2 := by
  intro asked lower upper
  rcases Nat.eq_or_lt_of_le lower with same | later
  · rw [← same]
    exact allocated
  · have next : asked = sb.requests + 1 := by omega
    rw [next]
    exact made

/-- Step by step a creation does what `s2fsCreate` says. -/
theorem create_refines (mode : Nat) (sb : SuperBlock) (parent : Option Nat) (name : List Char)
    (pid : Int) :
    sb.cached.create grants mode parent name pid =
      (s2fsCreate grants mode sb parent name pid).map
        (fun made => (made.1, made.2.cached)) := by
  cases parent with
  | none => rfl
  | some parent =>
      cases allocated : grants sb.requests with
      | false =>
          rw [s2fsCreate_denied mode parent name pid allocated]
          exact create_denied mode parent name pid allocated
      | true =>
          cases made : grants (sb.requests + 1) with
          | false =>
              rw [s2fsCreate_unmade mode parent name pid allocated made]
              exact create_unmade mode parent name pid allocated made
          | true =>
              have created := @create_made grants mode parent name pid sb.cached allocated made
              rw [s2fsCreate_granted (.two allocated made), created]
              simp only [SuperBlock.cached, List.length_map, List.map_append, List.map_cons,
                List.map_nil, Option.map_some]

/-- A creation that fails leaves no dentry behind. -/
theorem create_undone {mode : Nat} {cache after : Dcache} {parent : Option Nat}
    {name : List Char} {pid : Int}
    (failed : cache.create grants mode parent name pid = some (none, after)) :
    after.dentries = cache.dentries := by
  cases parent with
  | none => cases failed
  | some parent =>
      cases allocated : grants cache.requests with
      | false =>
          rw [create_denied mode parent name pid allocated] at failed
          cases failed
          rfl
      | true =>
          cases made : grants (cache.requests + 1) with
          | false =>
              rw [create_unmade mode parent name pid allocated made] at failed
              cases failed
              rfl
          | true =>
              rw [create_made mode parent name pid allocated made] at failed
              cases failed

end Creation

theorem s2fsCreate_null (grants : Nat → Bool) (mode : Nat) (sb : SuperBlock) (name : List Char)
    (pid : Int) : s2fsCreate grants mode sb none name pid = none := rfl

/-- A creation with a parent fails on a denied request and adds nothing, or adds its dentry. -/
theorem s2fsCreate_cases (grants : Nat → Bool) (mode : Nat) (sb : SuperBlock) (parent : Nat)
    (name : List Char) (pid : Int) :
    (¬ Granted grants sb 2 ∧ ∃ requests,
      s2fsCreate grants mode sb (some parent) name pid = some (none, ⟨sb.dentries, requests⟩)) ∨
    (Granted grants sb 2 ∧ s2fsCreate grants mode sb (some parent) name pid =
      some (some sb.dentries.length,
        ⟨sb.dentries ++ [⟨some parent, name, ⟨mode, pid⟩⟩], sb.requests + 2⟩)) := by
  cases allocated : grants sb.requests with
  | false =>
      left
      constructor
      · intro granted
        have given := granted _ (Nat.le_refl _) (by omega)
        rw [allocated] at given
        cases given
      · exact ⟨_, s2fsCreate_denied mode parent name pid allocated⟩
  | true =>
      cases made : grants (sb.requests + 1) with
      | false =>
          left
          constructor
          · intro granted
            have given := granted (sb.requests + 1) (by omega) (by omega)
            rw [made] at given
            cases given
          · exact ⟨_, s2fsCreate_unmade mode parent name pid allocated made⟩
      | true =>
          have granted := Granted.two allocated made
          exact .inr ⟨granted, s2fsCreate_granted granted mode parent name pid⟩

/-! ### The parents that are passed on -/

section Calls

variable (grants : Nat → Bool)

mutual

/-- The parents that `recursive_add` passes to `s2fs_create_file`, to `s2fs_create_dir` and to
itself, in the order of the calls. -/
def parentsPassed : TaskStruct → SuperBlock → Option Nat → List (Option Nat)
  | .node pid children, sb, rootd =>
      let fileName := snprintf 10 (percentI pid)
      if children.isEmpty then [rootd]
      else
        rootd ::
          match s2fsCreateDir grants sb rootd fileName pid with
          | none => []
          | some (subDentry, sb) =>
              subDentry ::
                match s2fsCreateFile grants sb subDentry fileName pid with
                | none => []
                | some (_, sb) => parentsPassedOn children sb subDentry

def parentsPassedOn : List TaskStruct → SuperBlock → Option Nat → List (Option Nat)
  | [], _, _ => []
  | holderTask :: list, sb, subDentry =>
      subDentry ::
        (parentsPassed holderTask sb subDentry ++
          match recursiveAdd grants holderTask sb subDentry with
          | none => []
          | some sb => parentsPassedOn list sb subDentry)

end

mutual

/-- `recursive_add` is an oops just when it passes on a null parent. -/
theorem parentsPassed_iff : ∀ (task : TaskStruct) (sb : SuperBlock) (rootd : Nat),
    none ∈ parentsPassed grants task sb (some rootd) ↔
      recursiveAdd grants task sb (some rootd) = none
  | .node pid [], sb, rootd => by
      have created := s2fsCreate_cases grants 0x8000 sb rootd (snprintf 10 (percentI pid)) pid
      simp only [parentsPassed, recursiveAdd, List.isEmpty_nil, if_true, s2fsCreateFile]
      rcases created with ⟨_, _, failed⟩ | ⟨_, made⟩
      · simp [failed]
      · simp [made]
  | .node pid (child :: rest), sb, rootd => by
      have opened := s2fsCreate_cases grants (S_IFDIR ||| 0o644) sb rootd
        (snprintf 10 (percentI pid)) pid
      simp only [parentsPassed, recursiveAdd, List.isEmpty_cons, Bool.false_eq_true, if_false,
        s2fsCreateDir, s2fsCreateFile]
      rcases opened with ⟨_, _, failed⟩ | ⟨_, made⟩
      · -- the null result is passed to `s2fs_create_file`
        simp only [failed, s2fsCreate_null, List.mem_cons, true_or, or_true]
      · obtain ⟨directory, opened⟩ : ∃ directory, s2fsCreate grants (S_IFDIR ||| 0o644) sb
            (some rootd) (snprintf 10 (percentI pid)) pid =
              some (some sb.dentries.length, directory) := ⟨_, made⟩
        have children : ∀ after,
            none ∈ parentsPassedOn grants (child :: rest) after (some sb.dentries.length) ↔
              addChildren grants (child :: rest) after (some sb.dentries.length) = none :=
          fun after => parentsPassedOn_iff (child :: rest) after sb.dentries.length
        have filed := s2fsCreate_cases grants 0x8000 directory sb.dentries.length
          (snprintf 10 (percentI pid)) pid
        rcases filed with ⟨_, _, failed⟩ | ⟨_, added⟩
        · simp only [opened, failed, List.mem_cons, reduceCtorEq, false_or]
          exact children _
        · simp only [opened, added, List.mem_cons, reduceCtorEq, false_or]
          exact children _

theorem parentsPassedOn_iff : ∀ (forest : List TaskStruct) (sb : SuperBlock) (subDentry : Nat),
    none ∈ parentsPassedOn grants forest sb (some subDentry) ↔
      addChildren grants forest sb (some subDentry) = none
  | [], sb, subDentry => by
      simp [parentsPassedOn, addChildren]
  | task :: rest, sb, subDentry => by
      have first := parentsPassed_iff task sb subDentry
      simp only [parentsPassedOn, addChildren, List.mem_cons, reduceCtorEq, false_or,
        List.mem_append, first]
      cases added : recursiveAdd grants task sb (some subDentry) with
      | none => simp
      | some after =>
          have later := parentsPassedOn_iff rest after subDentry
          simp only [reduceCtorEq, false_or]
          exact later

end

end Calls

/-! ### What a mount lacks -/

section Lacks

variable {grants : Nat → Bool}

/-- The dentries that a part of the mount adds, no more than it needs, and fewer if a request
that it needs is denied. -/
structure Adds (grants : Nat → Bool) (sb after : SuperBlock) (needed : Nat)
    (more : List Dentry) : Prop where
  added : after.dentries = sb.dentries ++ more
  bounded : more.length ≤ needed
  lacking : ¬ Granted grants sb (2 * needed) → more.length < needed

/-- A request denied among many is denied in the first of them or in the rest. -/
theorem Granted.append {sb between : SuperBlock} {first second : Nat}
    (front : Granted grants sb first) (back : Granted grants between second)
    (next : between.requests = sb.requests + first) :
    Granted grants sb (first + second) := by
  intro asked lower upper
  by_cases early : asked < sb.requests + first
  · exact front asked lower early
  · exact back asked (by omega) (by omega)

/-- What is added by two parts in turn: where the first has everything, the requests of the
second begin where those of the first end. -/
theorem Adds.append {sb between after : SuperBlock} {first second : Nat}
    {here later : List Dentry} (own : Adds grants sb between first here)
    (others : Adds grants between after second later)
    (next : here.length = first → between.requests = sb.requests + 2 * first) :
    Adds grants sb after (first + second) (here ++ later) := by
  have ownBounded := own.bounded
  have othersBounded := others.bounded
  refine ⟨?_, ?_, ?_⟩
  · rw [others.added, own.added, List.append_assoc]
  · rw [List.length_append]
    omega
  · intro denied
    rw [List.length_append]
    by_cases full : here.length = first
    · have mine : Granted grants sb (2 * first) := by
        by_contra lacks
        have strict := own.lacking lacks
        omega
      have strict := others.lacking (by
        intro theirs
        apply denied
        have whole := mine.append theirs (next full)
        rwa [← Nat.mul_add] at whole)
      omega
    · omega

mutual

theorem recursiveAdd_adds : ∀ (task : TaskStruct) (sb after : SuperBlock) (rootd : Nat),
    recursiveAdd grants task sb (some rootd) = some after →
    ∃ more, Adds grants sb after (creations task) more
  | .node pid [], sb, after, rootd, added => by
      have one : creations (.node pid []) = 1 := by
        rw [creations]
        rfl
      rw [one]
      have created := s2fsCreate_cases grants 0x8000 sb rootd (snprintf 10 (percentI pid)) pid
      simp only [recursiveAdd, List.isEmpty_nil, if_true, s2fsCreateFile] at added
      rcases created with ⟨_, requests, failed⟩ | ⟨granted, made⟩
      · rw [failed] at added
        cases added
        exact ⟨[], (List.append_nil _).symm, Nat.zero_le _, fun _ => Nat.zero_lt_one⟩
      · rw [made] at added
        cases added
        exact ⟨_, rfl, Nat.le_refl _, fun denied => absurd granted denied⟩
  | .node pid (child :: rest), sb, after, rootd, added => by
      have needed : creations (.node pid (child :: rest)) = 2 + creationsOf (child :: rest) := by
        rw [creations]
        rfl
      rw [needed]
      have opened := s2fsCreate_cases grants (S_IFDIR ||| 0o644) sb rootd
        (snprintf 10 (percentI pid)) pid
      simp only [recursiveAdd, List.isEmpty_cons, Bool.false_eq_true, if_false, s2fsCreateDir,
        s2fsCreateFile] at added
      rcases opened with ⟨_, _, failed⟩ | ⟨forDirectory, made⟩
      · simp only [failed, s2fsCreate_null, reduceCtorEq] at added
      · obtain ⟨directory, opened, entries, requests⟩ : ∃ directory : SuperBlock,
            s2fsCreate grants (S_IFDIR ||| 0o644) sb (some rootd) (snprintf 10 (percentI pid))
              pid = some (some sb.dentries.length, directory) ∧
            directory.dentries = sb.dentries ++ [dirDentry rootd pid] ∧
            directory.requests = sb.requests + 2 := ⟨_, made, rfl, rfl⟩
        have filed := s2fsCreate_cases grants 0x8000 directory sb.dentries.length
          (snprintf 10 (percentI pid)) pid
        rcases filed with ⟨_, _, failed⟩ | ⟨forFile, file⟩
        · simp only [opened, failed] at added
          obtain ⟨more, below⟩ := addChildren_adds (child :: rest) _ after _ added
          have lone : (1 : Nat) < 2 := Nat.lt_succ_self 1
          refine ⟨[dirDentry rootd pid] ++ more,
            Adds.append ⟨?_, Nat.le_of_lt lone, fun _ => lone⟩ below ?_⟩
          · exact entries
          · intro full
            exact absurd full (Nat.ne_of_lt lone)
        · simp only [opened, file] at added
          obtain ⟨more, below⟩ := addChildren_adds (child :: rest) _ after _ added
          refine ⟨[dirDentry rootd pid, fileDentry sb.dentries.length pid] ++ more,
            Adds.append ⟨?_, Nat.le_refl 2, ?_⟩ below ?_⟩
          · rw [entries, List.append_assoc]
            rfl
          · intro denied
            exact absurd (forDirectory.append forFile requests) denied
          · intro _
            rw [requests]

theorem addChildren_adds : ∀ (forest : List TaskStruct) (sb after : SuperBlock)
    (subDentry : Nat), addChildren grants forest sb (some subDentry) = some after →
    ∃ more, Adds grants sb after (creationsOf forest) more
  | [], sb, after, subDentry, added => by
      rw [addChildren] at added
      cases added
      have nothing : Granted grants sb (2 * creationsOf []) := by
        intro asked lower upper
        rw [creationsOf] at upper
        omega
      exact ⟨[], (List.append_nil _).symm, Nat.zero_le _, fun denied => absurd nothing denied⟩
  | task :: rest, sb, after, subDentry, added => by
      rw [creationsOf]
      rw [addChildren] at added
      cases first : recursiveAdd grants task sb (some subDentry) with
      | none =>
          rw [first] at added
          cases added
      | some between =>
          rw [first] at added
          obtain ⟨here, own⟩ := recursiveAdd_adds task sb between subDentry first
          obtain ⟨later, others⟩ := addChildren_adds rest between after subDentry added
          refine ⟨_, own.append others ?_⟩
          intro full
          have mine : Granted grants sb (2 * creations task) := by
            by_contra lacks
            have strict := own.lacking lacks
            omega
          have whole := recursiveAdd_granted task sb subDentry mine
          rw [first] at whole
          rw [Option.some.inj whole]

end

end Lacks

/-! ### What a mount has -/

def filePids (dentries : List Dentry) : List Int :=
  (dentries.filter (fun dentry => dentry.kind = .file)).map (fun dentry => dentry.inode.iPrivate)

def directoryPids (dentries : List Dentry) : List Int :=
  (dentries.filter (fun dentry => dentry.kind = .directory ∧ dentry.parent ≠ none)).map
    (fun dentry => dentry.inode.iPrivate)

/-- Every task has its file, and its directory if it has children; tasks of one pid have as
many as they are. -/
structure EveryEntry (task : TaskStruct) (dentries : List Dentry) : Prop where
  files : task.labels.Subperm (filePids dentries)
  directories : ((branches task.nodes).map LabelTree.label).Subperm (directoryPids dentries)

theorem filePids_append (front back : List Dentry) :
    filePids (front ++ back) = filePids front ++ filePids back := by
  rw [filePids, List.filter_append, List.map_append]
  rfl

theorem directoryPids_append (front back : List Dentry) :
    directoryPids (front ++ back) = directoryPids front ++ directoryPids back := by
  rw [directoryPids, List.filter_append, List.map_append]
  rfl

theorem filePids_single (dentry : Dentry) :
    filePids [dentry] = if dentry.kind = .file then [dentry.inode.iPrivate] else [] := by
  by_cases file : dentry.kind = .file
  · simp [filePids, file]
  · simp [filePids, file]

theorem directoryPids_single (dentry : Dentry) :
    directoryPids [dentry] =
      if dentry.kind = .directory ∧ dentry.parent ≠ none then [dentry.inode.iPrivate] else [] := by
  by_cases directory : dentry.kind = .directory ∧ dentry.parent ≠ none
  · simp [directoryPids, directory]
  · simp [directoryPids, directory]

theorem pids_file (parent : Nat) (pid : Int) :
    filePids [fileDentry parent pid] = [pid] ∧ directoryPids [fileDentry parent pid] = [] := by
  have kind := fileDentry_kind parent pid
  rw [filePids_single, directoryPids_single, kind]
  exact ⟨rfl, rfl⟩

theorem pids_directory (parent : Nat) (pid : Int) :
    filePids [dirDentry parent pid] = [] ∧ directoryPids [dirDentry parent pid] = [pid] := by
  have kind := dirDentry_kind parent pid
  rw [filePids_single, directoryPids_single, kind]
  exact ⟨rfl, rfl⟩

theorem pids_root (pid : Int) :
    filePids [rootDentryOf pid] = [] ∧ directoryPids [rootDentryOf pid] = [] := by
  have mode : (S_IFDIR ||| 0o755) &&& 0o170000 = S_IFDIR := by decide
  have kind : (rootDentryOf pid).kind = .directory := if_pos mode
  rw [filePids_single, directoryPids_single, kind]
  exact ⟨rfl, rfl⟩

mutual

/-- A block has the files and directories of its tasks, in the order of the nodes. -/
theorem blockOf_pids : ∀ (task : TaskStruct) (parent base : Nat),
    filePids (blockOf task parent base) = task.labels ∧
      directoryPids (blockOf task parent base) =
        (branches task.nodes).map LabelTree.label
  | .node pid [], parent, base => by
      obtain ⟨file, directory⟩ := pids_file parent pid
      rw [blockOf_leaf, file, directory, labels_node, labelsOf_nil, LabelTree.nodes, nodesOf]
      exact ⟨rfl, rfl⟩
  | .node pid (child :: rest), parent, base => by
      obtain ⟨files, directories⟩ := blocksOf_pids (child :: rest) base (base + 2)
      obtain ⟨noFile, ownDirectory⟩ := pids_directory parent pid
      obtain ⟨ownFile, noDirectory⟩ := pids_file base pid
      have own : branches (LabelTree.node pid (child :: rest) :: nodesOf (child :: rest)) =
          .node pid (child :: rest) :: branches (nodesOf (child :: rest)) := rfl
      have block : blockOf (.node pid (child :: rest)) parent base =
          [dirDentry parent pid] ++ ([fileDentry base pid] ++
            blocksOf (child :: rest) base (base + 2)) := blockOf_branch pid child rest parent base
      rw [block, filePids_append, filePids_append, directoryPids_append, directoryPids_append,
        files, directories, noFile, ownFile, ownDirectory, noDirectory, labels_node,
        LabelTree.nodes, own]
      exact ⟨rfl, rfl⟩

theorem blocksOf_pids : ∀ (forest : List TaskStruct) (parent base : Nat),
    filePids (blocksOf forest parent base) = labelsOf forest ∧
      directoryPids (blocksOf forest parent base) =
        (branches (nodesOf forest)).map LabelTree.label
  | [], parent, base => by
      rw [blocksOf, labelsOf_nil, nodesOf]
      exact ⟨rfl, rfl⟩
  | task :: rest, parent, base => by
      obtain ⟨files, directories⟩ := blockOf_pids task parent base
      obtain ⟨otherFiles, otherDirectories⟩ := blocksOf_pids rest parent
        (base + (blockOf task parent base).length)
      rw [blocksOf, filePids_append, directoryPids_append, files, directories, otherFiles,
        otherDirectories, labelsOf_cons, nodesOf, branches, branches, branches,
        List.filter_append, List.map_append]
      exact ⟨rfl, rfl⟩

end

theorem pids_length (dentries : List Dentry) :
    (filePids dentries).length + (directoryPids dentries).length ≤ dentries.length := by
  induction dentries with
  | nil => exact Nat.le_refl 0
  | cons dentry rest ih =>
      have split : dentry :: rest = [dentry] ++ rest := rfl
      have single : (filePids [dentry]).length + (directoryPids [dentry]).length ≤ 1 := by
        rw [filePids_single, directoryPids_single]
        cases dentry.kind with
        | file => exact Nat.le_refl 1
        | directory =>
            simp only [reduceCtorEq, if_false, List.length_nil, true_and]
            split
            · exact Nat.le_refl 1
            · exact Nat.zero_le 1
      rw [split, filePids_append, directoryPids_append, List.length_append, List.length_append,
        List.length_append, List.length_singleton]
      omega

mutual

theorem creations_eq : ∀ task : TaskStruct,
    creations task = task.labels.length + (branches task.nodes).length
  | .node pid [] => by
      rw [creations, labels_node, labelsOf_nil, LabelTree.nodes, nodesOf]
      rfl
  | .node pid (child :: rest) => by
      have below := creationsOf_eq (child :: rest)
      have own : branches (LabelTree.node pid (child :: rest) :: nodesOf (child :: rest)) =
          .node pid (child :: rest) :: branches (nodesOf (child :: rest)) := rfl
      rw [creations, List.isEmpty_cons, if_neg Bool.false_ne_true, below, labels_node,
        LabelTree.nodes, own, List.length_cons, List.length_cons]
      omega

theorem creationsOf_eq : ∀ forest : List TaskStruct,
    creationsOf forest = (labelsOf forest).length + (branches (nodesOf forest)).length
  | [] => by
      rw [creationsOf, labelsOf_nil, nodesOf]
      rfl
  | task :: rest => by
      rw [creationsOf, creations_eq task, creationsOf_eq rest, labelsOf_cons, nodesOf, branches,
        branches, branches, List.filter_append, List.length_append, List.length_append]
      omega

end

/-- With fewer dentries than are needed, some entry is missing. -/
theorem not_everyEntry {task : TaskStruct} {more : List Dentry}
    (fewer : more.length < creations task) :
    ¬ EveryEntry task ([rootDentryOf task.label] ++ more) := by
  intro every
  obtain ⟨noFile, noDirectory⟩ := pids_root task.label
  have needed := creations_eq task
  have fileCount := every.files.length_le
  have directoryCount := every.directories.length_le
  rw [filePids_append, noFile, List.nil_append] at fileCount
  rw [directoryPids_append, noDirectory, List.nil_append, List.length_map] at directoryCount
  have total := pids_length more
  omega

/-! ### The mount -/

structure Contained (grants : Nat → Bool) (task : TaskStruct) : Prop where
  /-- No call of `recursive_add` passes on a null parent. -/
  parents : ∀ parent ∈ parentsPassed grants task (rootMade task) (some 0), parent ≠ none
  /-- A creation that fails leaves nothing behind. -/
  undone : ∀ (mode : Nat) (cache after : Dcache) (parent : Option Nat) (name : List Char)
    (pid : Int), cache.create grants mode parent name pid = some (none, after) →
    after.dentries = cache.dentries
  /-- The mount succeeds only when it is whole. -/
  whole : ∀ sb, s2fsFillSuper grants task = some (0, sb) → EveryEntry task sb.dentries

/-- A failed allocation is contained just when there is none: each of the two requests for each
file and directory of the tree is granted. -/
theorem s2fsFillSuper_contained_iff {grants : Nat → Bool} (inode : grants 0 = true)
    (dentry : grants 1 = true) (task : TaskStruct) :
    Contained grants task ↔
      ∀ asked, 2 ≤ asked → asked < 2 + 2 * creations task → grants asked = true := by
  constructor
  · intro contained
    cases added : recursiveAdd grants task (rootMade task) (some 0) with
    | none =>
        have null := (parentsPassed_iff grants task (rootMade task) 0).mpr added
        exact absurd rfl (contained.parents none null)
    | some sb =>
        obtain ⟨more, adds⟩ := recursiveAdd_adds task (rootMade task) sb 0 added
        have mounted := s2fsFillSuper_rootMade inode dentry task
        rw [added] at mounted
        have every := contained.whole sb mounted
        rw [adds.added] at every
        by_cases granted : Granted grants (rootMade task) (2 * creations task)
        · exact granted
        · exact absurd every (not_everyEntry (adds.lacking granted))
  · intro granted
    have added := recursiveAdd_granted task (rootMade task) 0 granted
    constructor
    · intro parent passed null
      rw [null] at passed
      have oops := (parentsPassed_iff grants task (rootMade task) 0).mp passed
      rw [added] at oops
      cases oops
    · intro mode cache after parent name pid failed
      exact create_undone grants failed
    · intro sb mounted
      rw [s2fsFillSuper_rootMade inode dentry, added] at mounted
      cases mounted
      obtain ⟨files, directories⟩ := blockOf_pids task 0 1
      obtain ⟨noFile, noDirectory⟩ := pids_root task.label
      constructor
      · change task.labels.Subperm (filePids ([rootDentryOf task.label] ++ blockOf task 0 1))
        rw [filePids_append, noFile, List.nil_append, files]
      · change ((branches task.nodes).map LabelTree.label).Subperm
          (directoryPids ([rootDentryOf task.label] ++ blockOf task 0 1))
        rw [directoryPids_append, noDirectory, List.nil_append, directories]

/-- Without memory for the directory of the root task, its null dentry is the parent of the file
that is made next. -/
theorem s2fsFillSuper_contained_fails :
    ¬ Contained (fun asked => asked != 2) (.node 0 [.node 1 []]) ∧
      s2fsFillSuper (fun asked => asked != 2) (.node 0 [.node 1 []]) = none ∧
      parentsPassed (fun asked => asked != 2) (.node 0 [.node 1 []])
        (rootMade (.node 0 [.node 1 []])) (some 0) = [some 0, none] := by
  have passed : parentsPassed (fun asked => asked != 2) (.node 0 [.node 1 []])
      (rootMade (.node 0 [.node 1 []])) (some 0) = [some 0, none] := rfl
  constructor
  · intro contained
    have null : none ∈ parentsPassed (fun asked => asked != 2) (.node 0 [.node 1 []])
        (rootMade (.node 0 [.node 1 []])) (some 0) := by
      rw [passed]
      exact List.mem_cons_of_mem _ List.mem_cons_self
    exact contained.parents none null rfl
  · exact ⟨rfl, passed⟩

theorem s2fsFillSuper_contained_iff_lateDenial :
    Contained (fun asked => asked != 100) (.node 0 [.node 1 []]) ↔
      ∀ asked, 2 ≤ asked → asked < 2 + 2 * creations (.node 0 [.node 1 []]) →
        (asked != 100) = true :=
  s2fsFillSuper_contained_iff rfl rfl (.node 0 [.node 1 []])

end LKP.S2fs
