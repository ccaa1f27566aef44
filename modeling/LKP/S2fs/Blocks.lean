import LKP.S2fs.Names

/-
The dentries that `recursive_add` makes, block by block.

For each task it appends a block: the directory and the file of the task, then the
blocks of its children.  Only the first dentry of a block points out of it, so that
what a directory holds can be read off, and a task shows its mirror wherever its
block stands.
-/

set_option autoImplicit false

namespace LKP.S2fs

open TreeMirror

/-! ### What the dentries show -/

/-- These dentries, with all that is below them, show these trees. -/
inductive Shows (dentries : List Dentry) :
    List Nat → List (DirectoryTree (List Char)) → Prop
  | nil : Shows dentries [] []
  | file {index : Nat} {dentry : Dentry} {rest : List Nat}
      {trees : List (DirectoryTree (List Char))} (found : dentries[index]? = some dentry)
      (regular : dentry.kind = .file) (alone : dSubdirs dentries index = [])
      (beside : Shows dentries rest trees) :
      Shows dentries (index :: rest) (.file dentry.dName :: trees)
  | directory {index : Nat} {dentry : Dentry} {rest : List Nat}
      {entries trees : List (DirectoryTree (List Char))}
      (found : dentries[index]? = some dentry) (isDirectory : dentry.kind = .directory)
      (below : Shows dentries (dSubdirs dentries index) entries)
      (beside : Shows dentries rest trees) :
      Shows dentries (index :: rest) (.directory dentry.dName entries :: trees)

/-- The dentries show one tree only. -/
theorem Shows.unique {dentries : List Dentry} {indices : List Nat}
    {trees others : List (DirectoryTree (List Char))} (shows : Shows dentries indices trees)
    (again : Shows dentries indices others) : trees = others := by
  induction shows generalizing others with
  | nil =>
      cases again
      rfl
  | file found regular alone beside ih =>
      cases again with
      | file found' regular' alone' beside' =>
          cases found.symm.trans found'
          rw [ih beside']
      | directory found' isDirectory' below' beside' =>
          cases found.symm.trans found'
          cases regular.symm.trans isDirectory'
  | directory found isDirectory below beside ihBelow ihBeside =>
      cases again with
      | file found' regular' alone' beside' =>
          cases found.symm.trans found'
          cases isDirectory.symm.trans regular'
      | directory found' isDirectory' below' beside' =>
          cases found.symm.trans found'
          rw [ihBelow below', ihBeside beside']

theorem Shows.cons {dentries : List Dentry} {index : Nat} {rest : List Nat}
    {tree : DirectoryTree (List Char)} {trees : List (DirectoryTree (List Char))}
    (first : Shows dentries [index] [tree]) (later : Shows dentries rest trees) :
    Shows dentries (index :: rest) (tree :: trees) := by
  cases first with
  | file found regular alone _ => exact .file found regular alone later
  | directory found isDirectory below _ => exact .directory found isDirectory below later

theorem subdirsFrom_append (offset directory : Nat) (front back : List Dentry) :
    subdirsFrom offset directory (front ++ back) =
      subdirsFrom offset directory front ++
        subdirsFrom (offset + front.length) directory back := by
  induction front generalizing offset with
  | nil => rfl
  | cons dentry rest ih =>
      have shifted : offset + 1 + rest.length = offset + (dentry :: rest).length := by
        rw [List.length_cons]
        omega
      rw [List.cons_append, subdirsFrom, subdirsFrom, ih, shifted]
      by_cases here : dentry.parent = some directory
      · rw [if_pos here, if_pos here, List.cons_append]
      · rw [if_neg here, if_neg here]

theorem subdirsFrom_none {offset directory : Nat} {dentries : List Dentry}
    (elsewhere : ∀ dentry ∈ dentries, dentry.parent ≠ some directory) :
    subdirsFrom offset directory dentries = [] := by
  induction dentries generalizing offset with
  | nil => rfl
  | cons dentry rest ih =>
      rw [subdirsFrom, if_neg (elsewhere dentry List.mem_cons_self)]
      exact ih (fun other member => elsewhere other (List.mem_cons_of_mem _ member))

/-! ### The blocks of the tasks -/

def dirDentry (parent : Nat) (pid : Int) : Dentry :=
  ⟨some parent, fileName pid, ⟨S_IFDIR ||| 0o644, pid⟩⟩

def fileDentry (parent : Nat) (pid : Int) : Dentry := ⟨some parent, fileName pid, ⟨0x8000, pid⟩⟩

@[simp] theorem dirDentry_parent (parent : Nat) (pid : Int) :
    (dirDentry parent pid).parent = some parent := rfl

@[simp] theorem fileDentry_parent (parent : Nat) (pid : Int) :
    (fileDentry parent pid).parent = some parent := rfl

theorem dirDentry_kind (parent : Nat) (pid : Int) :
    (dirDentry parent pid).kind = .directory := by
  have mode : (S_IFDIR ||| 0o644) &&& 0o170000 = S_IFDIR := by decide
  exact if_pos mode

theorem fileDentry_kind (parent : Nat) (pid : Int) : (fileDentry parent pid).kind = .file := by
  have mode : ¬ 0x8000 &&& 0o170000 = S_IFDIR := by decide
  exact if_neg mode

mutual

/-- The dentries made for a task, when the first of them comes at `base`. -/
def blockOf : TaskStruct → Nat → Nat → List Dentry
  | .node pid children, parent, base =>
      if children.isEmpty then [fileDentry parent pid]
      else dirDentry parent pid :: fileDentry base pid :: blocksOf children base (base + 2)

def blocksOf : List TaskStruct → Nat → Nat → List Dentry
  | [], _, _ => []
  | task :: rest, parent, base =>
      blockOf task parent base ++
        blocksOf rest parent (base + (blockOf task parent base).length)

end

theorem blockOf_leaf (pid : Int) (parent base : Nat) :
    blockOf (.node pid []) parent base = [fileDentry parent pid] := by
  rw [blockOf]
  rfl

theorem blockOf_branch (pid : Int) (child : TaskStruct) (rest : List TaskStruct)
    (parent base : Nat) :
    blockOf (.node pid (child :: rest)) parent base =
      dirDentry parent pid :: fileDentry base pid :: blocksOf (child :: rest) base (base + 2) := by
  rw [blockOf]
  rfl

mutual

/-- How many dentries a task needs: one for its file, and one more for its directory. -/
def creations : TaskStruct → Nat
  | .node _ children => if children.isEmpty then 1 else 2 + creationsOf children

def creationsOf : List TaskStruct → Nat
  | [] => 0
  | task :: rest => creations task + creationsOf rest

end

mutual

/-- A dentry of a block is in the directory given, or in one of the block. -/
theorem blockOf_parent : ∀ (task : TaskStruct) (parent base : Nat),
    ∀ dentry ∈ blockOf task parent base, dentry.parent = some parent ∨
      ∃ inside, dentry.parent = some inside ∧ base ≤ inside ∧
        inside < base + (blockOf task parent base).length
  | .node pid [], parent, base, dentry, member => by
      rw [blockOf_leaf, List.mem_singleton] at member
      rw [member]
      exact .inl rfl
  | .node pid (child :: rest), parent, base, dentry, member => by
      rw [blockOf_branch] at member ⊢
      simp only [List.length_cons]
      rcases List.mem_cons.mp member with rfl | member
      · exact .inl rfl
      · right
        rcases List.mem_cons.mp member with rfl | member
        · exact ⟨base, rfl, Nat.le_refl _, by omega⟩
        · rcases blocksOf_parent (child :: rest) base (base + 2) dentry member with
            top | ⟨inside, same, lower, upper⟩
          · exact ⟨base, top, Nat.le_refl _, by omega⟩
          · exact ⟨inside, same, by omega, by omega⟩

theorem blocksOf_parent : ∀ (forest : List TaskStruct) (parent base : Nat),
    ∀ dentry ∈ blocksOf forest parent base, dentry.parent = some parent ∨
      ∃ inside, dentry.parent = some inside ∧ base ≤ inside ∧
        inside < base + (blocksOf forest parent base).length
  | [], parent, base, dentry, member => by
      rw [blocksOf] at member
      cases member
  | task :: rest, parent, base, dentry, member => by
      rw [blocksOf] at member ⊢
      rw [List.length_append]
      rcases List.mem_append.mp member with here | later
      · rcases blockOf_parent task parent base dentry here with top | ⟨inside, same, lower, upper⟩
        · exact .inl top
        · exact .inr ⟨inside, same, lower, by omega⟩
      · rcases blocksOf_parent rest parent _ dentry later with top | ⟨inside, same, lower, upper⟩
        · exact .inl top
        · exact .inr ⟨inside, same, by omega, by omega⟩

end

def headsOf : List TaskStruct → Nat → Nat → List Nat
  | [], _, _ => []
  | task :: rest, parent, base =>
      base :: headsOf rest parent (base + (blockOf task parent base).length)

/-- Of a block only its first dentry is in the directory given. -/
theorem subdirs_block (task : TaskStruct) {parent base : Nat} (earlier : parent < base) :
    subdirsFrom base parent (blockOf task parent base) = [base] := by
  cases task with
  | node pid children =>
      cases children with
      | nil =>
          rw [blockOf_leaf, subdirsFrom, if_pos (fileDentry_parent parent pid), subdirsFrom]
      | cons child rest =>
          rw [blockOf_branch, subdirsFrom, if_pos (dirDentry_parent parent pid)]
          congr 1
          apply subdirsFrom_none
          intro dentry member same
          rcases List.mem_cons.mp member with rfl | below
          · cases same
            omega
          · rcases blocksOf_parent (child :: rest) base (base + 2) dentry below with
              top | ⟨inside, within, lower, upper⟩
            · rw [top] at same
              cases same
              omega
            · rw [within] at same
              cases same
              omega

theorem subdirs_blocks (forest : List TaskStruct) {parent base : Nat} (earlier : parent < base) :
    subdirsFrom base parent (blocksOf forest parent base) = headsOf forest parent base := by
  induction forest generalizing base with
  | nil =>
      rw [blocksOf, headsOf]
      rfl
  | cons task rest ih =>
      rw [blocksOf, headsOf, subdirsFrom_append, subdirs_block task earlier, ih (by omega)]
      rfl

/-! ### What a block shows -/

def Grounded (dentries : List Dentry) : Prop :=
  ∀ dentry ∈ dentries, ∀ parent, dentry.parent = some parent → parent < dentries.length

def Outside (dentries : List Dentry) (base limit : Nat) : Prop :=
  ∀ dentry ∈ dentries, ∀ parent, dentry.parent = some parent → parent < base ∨ limit ≤ parent

theorem Outside.none {dentries : List Dentry} {base limit : Nat}
    (outside : Outside dentries base limit) (offset : Nat) {directory : Nat}
    (lower : base ≤ directory) (upper : directory < limit) :
    subdirsFrom offset directory dentries = [] := by
  apply subdirsFrom_none
  intro dentry member same
  have apart := outside dentry member directory same
  omega

theorem Grounded.none {dentries : List Dentry} (grounded : Grounded dentries) (offset : Nat)
    {directory : Nat} (beyond : dentries.length ≤ directory) :
    subdirsFrom offset directory dentries = [] := by
  apply subdirsFrom_none
  intro dentry member same
  have inside := grounded dentry member directory same
  omega

theorem Grounded.append {front back : List Dentry} (grounded : Grounded front)
    (inside : ∀ dentry ∈ back, ∀ parent, dentry.parent = some parent →
      parent < front.length + back.length) : Grounded (front ++ back) := by
  intro dentry member parent same
  rw [List.length_append]
  rcases List.mem_append.mp member with inFront | inBack
  · have bound := grounded dentry inFront parent same
    omega
  · exact inside dentry inBack parent same

theorem blockOf_inside (task : TaskStruct) {parent base : Nat} (earlier : parent < base) :
    ∀ dentry ∈ blockOf task parent base, ∀ directory, dentry.parent = some directory →
      directory < base + (blockOf task parent base).length := by
  intro dentry member directory same
  rcases blockOf_parent task parent base dentry member with top | ⟨inside, within, _, upper⟩
  · have equal := Option.some.inj (same.symm.trans top)
    omega
  · have equal := Option.some.inj (same.symm.trans within)
    omega

theorem blocksOf_outside (forest : List TaskStruct) {parent base low : Nat}
    (earlier : parent < low) : Outside (blocksOf forest parent base) low base := by
  intro dentry member directory same
  rcases blocksOf_parent forest parent base dentry member with top | ⟨inside, within, lower, _⟩
  · have equal := Option.some.inj (same.symm.trans top)
    omega
  · have equal := Option.some.inj (same.symm.trans within)
    omega

theorem Outside.append {front back : List Dentry} {base limit : Nat}
    (first : Outside front base limit) (second : Outside back base limit) :
    Outside (front ++ back) base limit := by
  intro dentry member directory same
  rcases List.mem_append.mp member with inFront | inBack
  · exact first dentry inFront directory same
  · exact second dentry inBack directory same

theorem Outside.narrow {dentries : List Dentry} {base limit base' limit' : Nat}
    (outside : Outside dentries base limit) (lower : base ≤ base') (upper : limit' ≤ limit) :
    Outside dentries base' limit' := by
  intro dentry member directory same
  have apart := outside dentry member directory same
  omega

def pairOf (parent base : Nat) (pid : Int) : List Dentry :=
  [dirDentry parent pid, fileDentry base pid]

theorem pairOf_subdirs {parent base : Nat} {pid : Int} (earlier : parent < base)
    (offset : Nat) :
    subdirsFrom offset base (pairOf parent base pid) = [offset + 1] ∧
      subdirsFrom offset (base + 1) (pairOf parent base pid) = [] := by
  have notBase : ¬ (dirDentry parent pid).parent = some base := by
    rw [dirDentry_parent, Option.some.injEq]
    omega
  have notFile : ¬ (dirDentry parent pid).parent = some (base + 1) := by
    rw [dirDentry_parent, Option.some.injEq]
    omega
  have notOwn : ¬ (fileDentry base pid).parent = some (base + 1) := by
    rw [fileDentry_parent, Option.some.injEq]
    omega
  constructor
  · rw [pairOf, subdirsFrom, if_neg notBase, subdirsFrom, if_pos (fileDentry_parent base pid),
      subdirsFrom]
  · rw [pairOf, subdirsFrom, if_neg notFile, subdirsFrom, if_neg notOwn, subdirsFrom]

theorem pairOf_inside {parent base : Nat} {pid : Int} (earlier : parent < base) :
    ∀ dentry ∈ pairOf parent base pid, ∀ directory, dentry.parent = some directory →
      directory < base + (pairOf parent base pid).length := by
  intro dentry member directory same
  have length : (pairOf parent base pid).length = 2 := rfl
  rcases List.mem_cons.mp member with rfl | second
  · rw [dirDentry_parent, Option.some.injEq] at same
    omega
  · rw [List.mem_singleton.mp second, fileDentry_parent, Option.some.injEq] at same
    omega

mutual

/-- Wherever its block stands, a task shows its mirror, if no later dentry points into the
block. -/
theorem shows_block : ∀ (task : TaskStruct) (parent : Nat) (front back : List Dentry),
    parent < front.length → Grounded front →
    Outside back front.length (front.length + (blockOf task parent front.length).length) →
    Shows (front ++ blockOf task parent front.length ++ back) [front.length]
      [mirror fileName task]
  | .node pid [], parent, front, back, earlier, grounded, noBack => by
      rw [blockOf_leaf] at noBack ⊢
      rw [mirror_leaf]
      have found : (front ++ [fileDentry parent pid] ++ back)[front.length]? =
          some (fileDentry parent pid) := by simp
      have own : subdirsFrom (0 + front.length) front.length [fileDentry parent pid] = [] := by
        apply subdirsFrom_none
        intro dentry member same
        rw [List.mem_singleton.mp member, fileDentry_parent, Option.some.injEq] at same
        omega
      have alone : dSubdirs (front ++ [fileDentry parent pid] ++ back) front.length = [] := by
        rw [dSubdirs, subdirsFrom_append, subdirsFrom_append, own,
          grounded.none 0 (Nat.le_refl _), noBack.none _ (Nat.le_refl _) (Nat.lt_succ_self _)]
        rfl
      exact .file found (fileDentry_kind parent pid) alone .nil
  | .node pid (child :: rest), parent, front, back, earlier, grounded, noBack => by
      let base := front.length
      let blocks := blocksOf (child :: rest) base (base + 2)
      let pair := pairOf parent base pid
      have block : blockOf (.node pid (child :: rest)) parent base = pair ++ blocks :=
        blockOf_branch pid child rest parent base
      have long : (pair ++ blocks).length = 2 + blocks.length := by
        rw [List.length_append]
        rfl
      have pairLength : (front ++ pair).length = base + 2 := List.length_append
      change Outside back base (base + (blockOf _ parent base).length) at noBack
      change Shows (front ++ blockOf _ parent base ++ back) [base] _
      rw [block, long] at noBack
      rw [block, mirror_branch, ← List.append_assoc]
      obtain ⟨holdsFile, fileHolds⟩ := @pairOf_subdirs parent base pid earlier (0 + base)
      -- the directory holds the file of the task and the entries of the children
      have holds : dSubdirs (front ++ pair ++ blocks ++ back) base =
          (base + 1) :: headsOf (child :: rest) base (base + 2) := by
        rw [dSubdirs, subdirsFrom_append, subdirsFrom_append, subdirsFrom_append, pairLength,
          grounded.none 0 (Nat.le_refl _), holdsFile, Nat.zero_add, Nat.zero_add,
          subdirs_blocks (child :: rest) (by omega), noBack.none _ (Nat.le_refl _) (by omega),
          List.append_nil]
        rfl
      have noBlocks : Outside blocks (base + 1) (base + 2) :=
        blocksOf_outside (child :: rest) (Nat.lt_succ_self base)
      have alone : dSubdirs (front ++ pair ++ blocks ++ back) (base + 1) = [] := by
        rw [dSubdirs, subdirsFrom_append, subdirsFrom_append, subdirsFrom_append,
          grounded.none 0 (Nat.le_succ _), fileHolds,
          noBlocks.none _ (Nat.le_refl _) (by omega), noBack.none _ (Nat.le_succ _) (by omega)]
        rfl
      have below : Shows (front ++ pair ++ blocks ++ back)
          (headsOf (child :: rest) base (base + 2)) (mirrorAll fileName (child :: rest)) := by
        have shown := shows_blocks (child :: rest) base (front ++ pair) back
        rw [pairLength] at shown
        exact shown (by omega) (grounded.append (pairOf_inside earlier))
          (noBack.narrow (Nat.le_add_right _ _) (Nat.le_of_eq (Nat.add_assoc base 2 _)))
      have dirFound : (front ++ pair ++ blocks ++ back)[base]? = some (dirDentry parent pid) := by
        simp [pair, pairOf, base]
      have fileFound : (front ++ pair ++ blocks ++ back)[base + 1]? =
          some (fileDentry base pid) := by
        simp [pair, pairOf, base]
      refine Shows.directory dirFound (dirDentry_kind parent pid) ?_ .nil
      rw [holds]
      exact .file fileFound (fileDentry_kind base pid) alone below

theorem shows_blocks : ∀ (forest : List TaskStruct) (parent : Nat) (front back : List Dentry),
    parent < front.length → Grounded front →
    Outside back front.length (front.length + (blocksOf forest parent front.length).length) →
    Shows (front ++ blocksOf forest parent front.length ++ back)
      (headsOf forest parent front.length) (mirrorAll fileName forest)
  | [], parent, front, back, _, _, _ => by
      rw [headsOf, mirrorAll]
      exact .nil
  | task :: rest, parent, front, back, earlier, grounded, noBack => by
      rw [blocksOf] at noBack ⊢
      rw [List.length_append] at noBack
      rw [headsOf, mirrorAll]
      let block := blockOf task parent front.length
      let blocks := blocksOf rest parent (front.length + block.length)
      have first : Shows (front ++ block ++ (blocks ++ back)) [front.length]
          [mirror fileName task] := by
        apply shows_block task parent front (blocks ++ back) earlier grounded
        exact (blocksOf_outside rest earlier).append
          (noBack.narrow (Nat.le_refl _) (Nat.add_le_add_left (Nat.le_add_right _ _) _))
      have later : Shows ((front ++ block) ++ blocks ++ back)
          (headsOf rest parent (front.length + block.length)) (mirrorAll fileName rest) := by
        have shown := shows_blocks rest parent (front ++ block) back
        rw [List.length_append] at shown
        exact shown (by omega) (grounded.append (blockOf_inside task earlier))
          (noBack.narrow (Nat.le_add_right _ _) (Nat.le_of_eq (Nat.add_assoc _ _ _)))
      change Shows (front ++ (block ++ blocks) ++ back) _ _
      rw [← List.append_assoc front block blocks]
      rw [List.append_assoc (front ++ block) blocks back] at later ⊢
      exact first.cons later

end

mutual

theorem blockOf_named : ∀ (task : TaskStruct) (parent base : Nat),
    ∀ dentry ∈ blockOf task parent base,
      dentry.dName = fileName dentry.inode.iPrivate ∧ dentry.inode.iPrivate ∈ task.labels
  | .node pid [], parent, base, dentry, member => by
      rw [blockOf_leaf, List.mem_singleton] at member
      rw [member, labels_node]
      exact ⟨rfl, List.mem_cons_self⟩
  | .node pid (child :: rest), parent, base, dentry, member => by
      rw [blockOf_branch] at member
      rw [labels_node]
      rcases List.mem_cons.mp member with rfl | member
      · exact ⟨rfl, List.mem_cons_self⟩
      · rcases List.mem_cons.mp member with rfl | below
        · exact ⟨rfl, List.mem_cons_self⟩
        · obtain ⟨named, among⟩ := blocksOf_named (child :: rest) base (base + 2) dentry below
          exact ⟨named, List.mem_cons_of_mem _ among⟩

theorem blocksOf_named : ∀ (forest : List TaskStruct) (parent base : Nat),
    ∀ dentry ∈ blocksOf forest parent base,
      dentry.dName = fileName dentry.inode.iPrivate ∧ dentry.inode.iPrivate ∈ labelsOf forest
  | [], parent, base, dentry, member => by
      rw [blocksOf] at member
      cases member
  | task :: rest, parent, base, dentry, member => by
      rw [blocksOf] at member
      rw [labelsOf_cons, List.mem_append]
      rcases List.mem_append.mp member with here | later
      · obtain ⟨named, among⟩ := blockOf_named task parent base dentry here
        exact ⟨named, .inl among⟩
      · obtain ⟨named, among⟩ := blocksOf_named rest parent _ dentry later
        exact ⟨named, .inr among⟩

end

end LKP.S2fs
