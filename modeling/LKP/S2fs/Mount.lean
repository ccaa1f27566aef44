import LKP.S2fs.Blocks

/-
The mounted `s2fs` mirrors the process tree.

With every allocation granted, `recursive_add` appends exactly the block of the root
task; what the block shows, and what a read of one of its files asks for, is what
the mount has to offer.
-/

set_option autoImplicit false

namespace LKP.S2fs

open TreeMirror

/-! ### The mount -/

section Granted

variable {grants : Nat → Bool}

def Granted (grants : Nat → Bool) (sb : SuperBlock) (count : Nat) : Prop :=
  ∀ asked, sb.requests ≤ asked → asked < sb.requests + count → grants asked = true

theorem s2fsCreate_granted {sb : SuperBlock} (granted : Granted grants sb 2) (mode : Nat)
    (parent : Nat) (name : List Char) (pid : Int) :
    s2fsCreate grants mode sb (some parent) name pid =
      some (some sb.dentries.length,
        ⟨sb.dentries ++ [⟨some parent, name, ⟨mode, pid⟩⟩], sb.requests + 2⟩) := by
  have first : grants sb.requests = true := granted _ (Nat.le_refl _) (by omega)
  have second : grants (sb.requests + 1) = true := granted _ (by omega) (by omega)
  simp only [s2fsCreate, dAlloc, s2fsMakeInode, request, first, second, dAdd]

mutual

/-- `recursive_add` appends the block of its task, if both requests for each of its dentries
are granted. -/
theorem recursiveAdd_granted : ∀ (task : TaskStruct) (sb : SuperBlock) (rootd : Nat),
    Granted grants sb (2 * creations task) →
    recursiveAdd grants task sb (some rootd) =
      some ⟨sb.dentries ++ blockOf task rootd sb.dentries.length,
        sb.requests + 2 * creations task⟩
  | .node pid [], sb, rootd, granted => by
      have one : creations (.node pid []) = 1 := by
        rw [creations]
        rfl
      rw [one] at granted ⊢
      simp only [recursiveAdd, List.isEmpty_nil, if_true, s2fsCreateFile,
        s2fsCreate_granted granted, blockOf_leaf]
      rfl
  | .node pid (child :: rest), sb, rootd, granted => by
      have needed : creations (.node pid (child :: rest)) = 2 + creationsOf (child :: rest) := by
        rw [creations]
        rfl
      let opened : SuperBlock := ⟨sb.dentries ++ [dirDentry rootd pid], sb.requests + 2⟩
      let made : SuperBlock :=
        ⟨opened.dentries ++ [fileDentry sb.dentries.length pid], opened.requests + 2⟩
      rw [needed] at granted ⊢
      have forDirectory : Granted grants sb 2 :=
        fun asked lower upper => granted asked lower (by omega)
      have forFile : Granted grants opened 2 := by
        intro asked lower upper
        simp only [opened] at lower upper
        exact granted asked (by omega) (by omega)
      have forChildren : Granted grants made (2 * creationsOf (child :: rest)) := by
        intro asked lower upper
        simp only [made, opened] at lower upper
        exact granted asked (by omega) (by omega)
      have directory : s2fsCreateDir grants sb (some rootd) (snprintf 10 (percentI pid)) pid =
          some (some sb.dentries.length, opened) := s2fsCreate_granted forDirectory _ _ _ _
      have file : s2fsCreateFile grants opened (some sb.dentries.length)
          (snprintf 10 (percentI pid)) pid = some (some opened.dentries.length, made) :=
        s2fsCreate_granted forFile _ _ _ _
      have children := addChildren_granted (child :: rest) made sb.dentries.length forChildren
      have length : made.dentries.length = sb.dentries.length + 2 := by
        simp only [made, opened, List.length_append, List.length_singleton]
      simp only [recursiveAdd, List.isEmpty_cons, Bool.false_eq_true, if_false, directory, file,
        children, length, blockOf_branch]
      simp only [made, opened, List.append_assoc, List.cons_append, List.nil_append]
      congr 2
      omega

theorem addChildren_granted : ∀ (forest : List TaskStruct) (sb : SuperBlock) (subDentry : Nat),
    Granted grants sb (2 * creationsOf forest) →
    addChildren grants forest sb (some subDentry) =
      some ⟨sb.dentries ++ blocksOf forest subDentry sb.dentries.length,
        sb.requests + 2 * creationsOf forest⟩
  | [], sb, subDentry, _ => by
      rw [addChildren, blocksOf, List.append_nil, creationsOf]
      rfl
  | task :: rest, sb, subDentry, granted => by
      rw [creationsOf] at granted ⊢
      let between : SuperBlock :=
        ⟨sb.dentries ++ blockOf task subDentry sb.dentries.length,
          sb.requests + 2 * creations task⟩
      have first : recursiveAdd grants task sb (some subDentry) = some between :=
        recursiveAdd_granted task sb subDentry
          (fun asked lower upper => granted asked lower (by omega))
      have forRest : Granted grants between (2 * creationsOf rest) := by
        intro asked lower upper
        simp only [between] at lower upper
        exact granted asked (by omega) (by omega)
      have later := addChildren_granted rest between subDentry forRest
      simp only [addChildren, first, later, blocksOf]
      simp only [between, List.length_append, List.append_assoc]
      congr 2
      omega

end

def rootDentryOf (pid : Int) : Dentry := ⟨none, ['/'], ⟨S_IFDIR ||| 0o755, pid⟩⟩

def rootMade (task : TaskStruct) : SuperBlock := ⟨[rootDentryOf task.label], 2⟩

/-- With the root made, the result is that of `recursive_add`. -/
theorem s2fsFillSuper_rootMade (inode : grants 0 = true) (dentry : grants 1 = true)
    (task : TaskStruct) :
    s2fsFillSuper grants task =
      (recursiveAdd grants task (rootMade task) (some 0)).map (fun sb => (0, sb)) := by
  simp only [s2fsFillSuper, s2fsMakeInode, request, inode, dMakeRoot, dentry, dAdd]
  cases added : recursiveAdd grants task (rootMade task) (some 0) with
  | none =>
      simp only [rootMade, rootDentryOf] at added
      simp only [List.nil_append, List.length_nil, added]
      rfl
  | some sb =>
      simp only [rootMade, rootDentryOf] at added
      simp only [List.nil_append, List.length_nil, added]
      rfl

theorem s2fsFillSuper_granted (granted : ∀ asked, grants asked = true) (task : TaskStruct) :
    ∃ requests, s2fsFillSuper grants task =
      some (0, ⟨rootDentryOf task.label :: blockOf task 0 1, requests⟩) := by
  have added := recursiveAdd_granted task (rootMade task) 0 (fun asked _ _ => granted asked)
  rw [s2fsFillSuper_rootMade (granted 0) (granted 1), added]
  exact ⟨_, rfl⟩

end Granted

structure Mirrors (task : TaskStruct) (dentries : List Dentry)
    (tree : DirectoryTree (List Char)) : Prop where
  /-- The mount root holds one entry, that of the root task. -/
  shown : Shows dentries (dSubdirs dentries 0) [tree]
  top : tree.heading = entryOf fileName task
  /-- Every task has one regular file, named by its pid. -/
  named : ∀ pid ∈ task.labels, fileName pid = percentI pid
  files : tree.files = task.labels.map fileName
  filesOnce : tree.files.Nodup
  /-- Every task with children has one directory, with its file and their entries. -/
  directories : tree.listings = (branches task.nodes).map (directoryOf fileName)
  directoriesOnce : (tree.listings.map Prod.fst).Nodup
  distinct : ∀ listing ∈ tree.listings, (listing.2.map Prod.snd).Nodup
  /-- A read of a file asks for the task it was made for. -/
  asks : ∀ dentry ∈ dentries, dentry.kind = .file →
    dentry.inode.iPrivate ∈ task.labels ∧ dentry.dName = fileName dentry.inode.iPrivate ∧
      ∀ getTaskInfo count offset faulted,
        s2fsReadFile getTaskInfo dentry count offset faulted =
          copyTaskInfo (getTaskInfo dentry.inode.iPrivate) count offset faulted

theorem mount_mirrors {task : TaskStruct} (distinct : task.labels.Nodup)
    (pids : ∀ pid ∈ task.labels, IsPid pid) :
    Mirrors task (rootDentryOf task.label :: blockOf task 0 1) (mirror fileName task) := by
  have injective : ∀ left ∈ task.labels, ∀ right ∈ task.labels,
      fileName left = fileName right → left = right :=
    fun left leftMember right rightMember =>
      fileName_injective (pids left leftMember) (pids right rightMember)
  have grounded : Grounded [rootDentryOf task.label] := by
    intro dentry member parent same
    rw [List.mem_singleton.mp member] at same
    cases same
  have nothing : Outside [] 1 (1 + (blockOf task 0 1).length) :=
    fun dentry member => absurd member List.not_mem_nil
  have rootNot : ¬ (rootDentryOf task.label).parent = some 0 := by
    intro same
    cases same
  have root : dSubdirs (rootDentryOf task.label :: blockOf task 0 1) 0 = [1] := by
    rw [dSubdirs, subdirsFrom, if_neg rootNot, subdirs_block task (Nat.zero_lt_one)]
  have shown := shows_block task 0 [rootDentryOf task.label] [] Nat.zero_lt_one grounded nothing
  rw [List.append_nil] at shown
  have branchLabels : ((branches task.nodes).map LabelTree.label).Sublist task.labels :=
    List.filter_sublist.map LabelTree.label
  have directoryNames : ((branches task.nodes).map (directoryOf fileName)).map Prod.fst =
      ((branches task.nodes).map LabelTree.label).map fileName := by
    rw [List.map_map, List.map_map]
    rfl
  constructor
  · rw [root]
    exact shown
  · exact heading_mirror fileName task
  · intro pid member
    rw [fileName_pid (pids pid member), percentI_pid (pids pid member)]
  · exact files_mirror fileName task
  · rw [files_mirror]
    apply distinct.map_on
    intro left leftMember right rightMember same
    exact injective left leftMember right rightMember same
  · exact listings_mirror fileName task
  · rw [listings_mirror, directoryNames]
    apply (distinct.sublist branchLabels).map_on
    intro left leftMember right rightMember same
    exact injective left (branchLabels.subset leftMember) right (branchLabels.subset rightMember)
      same
  · intro listing member
    rw [listings_mirror] at member
    obtain ⟨below, branch, rfl⟩ := List.mem_map.mp member
    exact directoryOf_nodup fileName distinct injective (List.mem_of_mem_filter branch)
  · intro dentry member regular
    rcases List.mem_cons.mp member with rfl | inBlock
    · have mode : (S_IFDIR ||| 0o755) &&& 0o170000 = S_IFDIR := by decide
      have isDirectory : (rootDentryOf task.label).kind = .directory := if_pos mode
      cases isDirectory.symm.trans regular
    · obtain ⟨named, among⟩ := blockOf_named task 0 1 dentry inBlock
      refine ⟨among, named, ?_⟩
      intro getTaskInfo count offset faulted
      have inline : dentry.dIname = fileName dentry.inode.iPrivate := by
        rw [Dentry.dIname, named, if_pos (fileName_short _)]
      have asked := pidOf_fileName (pids _ among)
      rw [pidOf] at asked
      simp only [s2fsReadFile, inline, asked]

/-- A mount of `s2fs` mirrors the process tree: one file for each task and one directory for
each task with children, all in their places; and different trees, up to the order of
siblings, give different mounts. -/
theorem s2fsFillSuper_mirrors {grants : Nat → Bool} (granted : ∀ asked, grants asked = true)
    {task : TaskStruct} (distinct : task.labels.Nodup) (pids : ∀ pid ∈ task.labels, IsPid pid) :
    ∃ sb tree, s2fsFillSuper grants task = some (0, sb) ∧ Mirrors task sb.dentries tree ∧
      ∀ other : TaskStruct, other.labels.Nodup → (∀ pid ∈ other.labels, IsPid pid) →
        ∀ sb' tree', s2fsFillSuper grants other = some (0, sb') →
          Shows sb'.dentries (dSubdirs sb'.dentries 0) [tree'] →
          (DirectoryTree.Reordered [tree] [tree'] ↔ LabelTree.Reordered [task] [other]) := by
  obtain ⟨requests, mounted⟩ := s2fsFillSuper_granted granted task
  refine ⟨_, mirror fileName task, mounted, mount_mirrors distinct pids, ?_⟩
  intro other otherDistinct otherPids sb' tree' otherMounted shows
  obtain ⟨requests', same⟩ := s2fsFillSuper_granted granted other
  cases otherMounted.symm.trans same
  have mirrored := (mount_mirrors otherDistinct otherPids).shown
  cases shows.unique mirrored
  exact mirror_reordered_iff fileName pidOf
    (fun pid member => pidOf_fileName (pids pid member))
    (fun pid member => pidOf_fileName (otherPids pid member)) distinct otherDistinct

theorem s2fsFillSuper_mirrors_swapper :
    ∃ sb tree,
      s2fsFillSuper (fun _ => true) (.node 0 [.node 1 [.node 4194304 []], .node 2 []]) =
        some (0, sb) ∧
      Mirrors (.node 0 [.node 1 [.node 4194304 []], .node 2 []]) sb.dentries tree ∧
      ∀ other : TaskStruct, other.labels.Nodup → (∀ pid ∈ other.labels, IsPid pid) →
        ∀ sb' tree', s2fsFillSuper (fun _ => true) other = some (0, sb') →
          Shows sb'.dentries (dSubdirs sb'.dentries 0) [tree'] →
          (DirectoryTree.Reordered [tree] [tree'] ↔
            LabelTree.Reordered [.node 0 [.node 1 [.node 4194304 []], .node 2 []]] [other]) := by
  apply s2fsFillSuper_mirrors (fun _ => rfl)
  · simp
  · simp [IsPid]

end LKP.S2fs
