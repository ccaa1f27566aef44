import LKP.Proj2.ProcShow

/-
What the four inserts do to the structures when memory is granted.

The descent of `insert_rb_tree` keeps the place it has reached between the entries
that are smaller and those that are larger than the one to be inserted; a value
that is already there ends it.
-/

set_option autoImplicit false

namespace LKP.Proj2

open RedBlackTree

/-! ### The search tree -/

def SearchTree (tree : RbTree Entry) : Prop :=
  tree.inorder.Pairwise (fun left right => left.val < right.val)

theorem SearchTree.nodup {tree : RbTree Entry} (search : SearchTree tree) :
    tree.inorder.Nodup := by
  apply List.Pairwise.imp _ search
  intro left right less same
  rw [same] at less
  exact Int32.lt_irrefl less

structure Belongs (insertion : Entry) (new : Slot Entry) : Prop where
  smaller : ∀ entry ∈ before new, entry.val < insertion.val
  larger : ∀ entry ∈ after new, insertion.val < entry.val

theorem same_of_not_lt {left right : Int32} (notMore : ¬ left > right)
    (notLess : ¬ left < right) : left = right := by
  rw [gt_iff_lt, Int32.lt_iff_toInt_lt] at notMore
  rw [Int32.lt_iff_toInt_lt] at notLess
  apply Int32.toInt_inj.mp
  omega

/-- The descent stops only at a node that has the value. -/
theorem rbDescend_none {insertion : Entry} {tree : RbTree Entry} {parent : Option Entry}
    {new : Slot Entry} (stopped : rbDescend insertion tree parent new = none) :
    ∃ this ∈ tree.inorder, this.val = insertion.val := by
  induction tree generalizing parent new with
  | nil => cases stopped
  | node color left this right ihLeft ihRight =>
      simp only [rbDescend] at stopped
      split at stopped
      · obtain ⟨found, member, same⟩ := ihLeft stopped
        exact ⟨found, List.mem_append_left _ member, same⟩
      · rename_i notMore
        split at stopped
        · obtain ⟨found, member, same⟩ := ihRight stopped
          exact ⟨found, List.mem_append_right _ (List.mem_cons_of_mem this member), same⟩
        · rename_i notLess
          exact ⟨this, List.mem_append_right _ List.mem_cons_self,
            same_of_not_lt notMore notLess⟩

/-- The loop invariant: the parent trails the slot, the tree around the slot is the one the
descent began in, and the entry belongs where the slot is. -/
theorem rbDescend_some {insertion : Entry} {tree : RbTree Entry} {parent reached : Option Entry}
    {new slot : Slot Entry} (search : SearchTree (plug new tree))
    (trailing : parent = owner new) (belongs : Belongs insertion new)
    (ended : rbDescend insertion tree parent new = some (reached, slot)) :
    reached = owner slot ∧ plug slot .nil = plug new tree ∧ Belongs insertion slot := by
  induction tree generalizing parent new with
  | nil =>
      cases ended
      exact ⟨trailing, rfl, belongs⟩
  | node color left this right ihLeft ihRight =>
      have order := search
      simp only [SearchTree, plug_inorder, RbTree.inorder] at order
      have here := (List.pairwise_append.mp (List.pairwise_append.mp order).1).2.1
      obtain ⟨_, below, leftBefore⟩ := List.pairwise_append.mp here
      obtain ⟨rightAfter, _⟩ := List.pairwise_cons.mp below
      simp only [rbDescend] at ended
      split at ended
      · rename_i more
        have deeper : Belongs insertion (.left color this right :: new) := by
          constructor
          · exact belongs.smaller
          · intro entry member
            rcases List.mem_append.mp member with inside | outside
            · rcases List.mem_cons.mp inside with rfl | further
              · exact more
              · exact Int32.lt_trans more (rightAfter entry further)
            · exact belongs.larger entry outside
        have follows : some this = owner (.left color this right :: new) := rfl
        exact ihLeft search follows deeper ended
      · split at ended
        · rename_i less
          have deeper : Belongs insertion (.right color left this :: new) := by
            constructor
            · intro entry member
              rcases List.mem_append.mp member with outside | inside
              · exact belongs.smaller entry outside
              · rcases List.mem_append.mp inside with further | last
                · exact Int32.lt_trans (leftBefore entry further this List.mem_cons_self) less
                · rw [List.mem_singleton.mp last]
                  exact less
            · exact belongs.larger
          have follows : some this = owner (.right color left this :: new) := rfl
          exact ihRight search follows deeper ended
        · cases ended

theorem rbDescend_root {insertion : Entry} {treeRoot : RbTree Entry} {reached : Option Entry}
    {slot : Slot Entry} (search : SearchTree treeRoot)
    (ended : rbDescend insertion treeRoot none [] = some (reached, slot)) :
    reached = owner slot ∧ plug slot .nil = treeRoot ∧
      treeRoot.inorder = before slot ++ after slot ∧ Belongs insertion slot := by
  have whole : SearchTree (plug [] treeRoot) := search
  have nowhere : Belongs insertion [] := ⟨by simp [before], by simp [after]⟩
  obtain ⟨trailing, same, belongs⟩ := rbDescend_some whole rfl nowhere ended
  have same : plug slot .nil = treeRoot := same
  refine ⟨trailing, same, ?_, belongs⟩
  rw [← same, plug_inorder, RbTree.inorder, List.append_nil]

theorem insertRbTree_present {kernel : Kernel} {treeRoot : RbTree Entry} {insertion : Entry}
    (search : SearchTree treeRoot)
    (present : ∃ this ∈ treeRoot.inorder, this.val = insertion.val) :
    insertRbTree kernel treeRoot insertion = some (-1, treeRoot) := by
  unfold insertRbTree
  cases descended : rbDescend insertion treeRoot none [] with
  | none => rfl
  | some ended =>
      obtain ⟨reached, slot⟩ := ended
      obtain ⟨_, _, around, belongs⟩ := rbDescend_root search descended
      obtain ⟨this, member, same⟩ := present
      rw [around] at member
      rcases List.mem_append.mp member with early | late
      · exact absurd (belongs.smaller this early) (by rw [same]; exact Int32.lt_irrefl)
      · exact absurd (belongs.larger this late) (by rw [same]; exact Int32.lt_irrefl)

/-- An absent value ends the descent at a slot where the entry belongs; it is linked there, by
its right parent, and the tree is handed to the kernel. -/
theorem insertRbTree_linked {kernel : Kernel} {treeRoot : RbTree Entry} {insertion : Entry}
    (search : SearchTree treeRoot)
    (absent : ∀ this ∈ treeRoot.inorder, this.val ≠ insertion.val) :
    ∃ slot, insertRbTree kernel treeRoot insertion =
        some (0, kernel.rbInsertColor (plug slot (.node .red .nil insertion .nil)) insertion) ∧
      plug slot .nil = treeRoot ∧ treeRoot.inorder = before slot ++ after slot ∧
      Belongs insertion slot := by
  unfold insertRbTree
  cases descended : rbDescend insertion treeRoot none [] with
  | none =>
      obtain ⟨this, member, same⟩ := rbDescend_none descended
      exact absurd same (absent this member)
  | some ended =>
      obtain ⟨reached, slot⟩ := ended
      obtain ⟨trailing, whole, around, belongs⟩ := rbDescend_root search descended
      refine ⟨slot, ?_, whole, around, belongs⟩
      simp only [rbLinkNode, if_pos trailing]

theorem linked_inorder (slot : Slot Entry) (insertion : Entry) :
    (plug slot (.node .red .nil insertion .nil)).inorder =
      before slot ++ insertion :: after slot := by
  rw [plug_inorder]
  simp only [RbTree.inorder, List.nil_append, List.append_assoc, List.cons_append]

/-- An absent value is inserted in order, and the tree stays red-black. -/
theorem insertRbTree_absent {kernel : Kernel} (documented : kernel.Documented)
    {treeRoot : RbTree Entry} {insertion : Entry} (search : SearchTree treeRoot)
    (absent : ∀ this ∈ treeRoot.inorder, this.val ≠ insertion.val) :
    ∃ root slot, insertRbTree kernel treeRoot insertion = some (0, root) ∧
      treeRoot.inorder = before slot ++ after slot ∧
      root.inorder = before slot ++ insertion :: after slot ∧
      Belongs insertion slot ∧ (RedBlack treeRoot → RedBlack root) := by
  obtain ⟨slot, inserted, whole, around, belongs⟩ :=
    @insertRbTree_linked kernel treeRoot insertion search absent
  refine ⟨_, slot, inserted, around, ?_, belongs, ?_⟩
  · rw [documented.insertColor_inorder, linked_inorder]
  · intro shape
    rw [← whole] at shape
    exact documented.insertColor_redBlack slot insertion shape

theorem Belongs.search {insertion : Entry} {slot : Slot Entry} {treeRoot root : RbTree Entry}
    (belongs : Belongs insertion slot) (search : SearchTree treeRoot)
    (around : treeRoot.inorder = before slot ++ after slot)
    (within : root.inorder = before slot ++ insertion :: after slot) : SearchTree root := by
  unfold SearchTree at search ⊢
  rw [around] at search
  rw [within]
  obtain ⟨early, late, across⟩ := List.pairwise_append.mp search
  apply List.pairwise_append.mpr
  refine ⟨early, List.pairwise_cons.mpr ⟨belongs.larger, late⟩, ?_⟩
  intro left inFront right behind
  rcases List.mem_cons.mp behind with rfl | further
  · exact belongs.smaller left inFront
  · exact across left inFront right further

/-! ### The stores of one value -/

section Memory

variable {kernel : Kernel}

theorem kmalloc_given {m : Module} (grant : kernel.grants m.requests = true) :
    kmalloc kernel m = (some m.requests, granted m) := if_pos grant

theorem radixTreeInsert_present {index : UInt64} {entry : Entry} {m : Module}
    (present : index ∈ m.radixTree) :
    radixTreeInsert kernel index entry m = (Errno.eexist.code, m) := if_pos present

theorem radixTreeInsert_granted {index : UInt64} {entry : Entry} {m : Module}
    (absent : index ∉ m.radixTree) (grant : kernel.grants m.requests = true) :
    radixTreeInsert kernel index entry m =
      (0, { m with
        radixTree := m.radixTree.insert index entry
        requests := m.requests + 1 }) := by
  rw [radixTreeInsert, if_neg absent, if_pos grant]

theorem radixTreeInsert_denied {index : UInt64} {entry : Entry} {m : Module}
    (absent : index ∉ m.radixTree) (denied : kernel.grants m.requests = false) :
    radixTreeInsert kernel index entry m =
      (Errno.enomem.code, { m with requests := m.requests + 1 }) := by
  rw [radixTreeInsert, if_neg absent, denied]
  rfl

theorem radixTreeInsert_frame (index : UInt64) (entry : Entry) (m : Module) :
    ∃ slots requests, (radixTreeInsert kernel index entry m).2 =
      { m with radixTree := slots, requests := requests } ∧ m.requests ≤ requests := by
  by_cases present : index ∈ m.radixTree
  · rw [radixTreeInsert_present present]
    exact ⟨m.radixTree, m.requests, rfl, Nat.le_refl _⟩
  · cases grant : kernel.grants m.requests with
    | true =>
        rw [radixTreeInsert_granted present grant]
        exact ⟨_, _, rfl, Nat.le_succ _⟩
    | false =>
        rw [radixTreeInsert_denied present grant]
        exact ⟨_, _, rfl, Nat.le_succ _⟩

theorem storeValue_given {val : Int32} {m : Module} (grant : kernel.grants m.requests = true) :
    storeValue kernel val m = some (0, listAddTail ⟨m.requests, val⟩ (granted m)) := by
  rw [storeValue, kmalloc_given grant]

theorem storeHashValue_given {val : Int32} {m : Module}
    (grant : kernel.grants m.requests = true) :
    storeHashValue kernel val m = some (0, hashAdd kernel ⟨m.requests, val⟩ val (granted m)) := by
  rw [storeHashValue, kmalloc_given grant]

theorem rbTreeInsert_given {val : Int32} {m : Module} {result : Int} {root : RbTree Entry}
    (grant : kernel.grants m.requests = true)
    (inserted : insertRbTree kernel m.root ⟨m.requests, val⟩ = some (result, root)) :
    rbTreeInsert kernel val m = some (0, { granted m with root := root }) := by
  have inserted : insertRbTree kernel (granted m).root ⟨m.requests, val⟩ =
      some (result, root) := inserted
  simp only [rbTreeInsert, kmalloc_given grant, inserted]

theorem radixInsert_given {val : Int32} {m : Module} (grant : kernel.grants m.requests = true) :
    radixInsert kernel val m =
      some (0, (radixTreeInsert kernel (unsignedLong val) ⟨m.requests, val⟩ (granted m)).2) := by
  rw [radixInsert, kmalloc_given grant]

/-- The globals before the insert into the radix tree, with the tree as `insert_rb_tree` has
left it. -/
def storedThree (kernel : Kernel) (val : Int32) (root : RbTree Entry) (m : Module) : Module :=
  { m with
    mylist := m.mylist ++ [⟨m.requests, val⟩]
    myHTable := Function.update m.myHTable (kernel.hashMin val)
      (⟨m.requests + 1, val⟩ :: m.myHTable (kernel.hashMin val))
    root := root
    requests := m.requests + 4
    ledger := m.ledger ++ [.alloc m.requests, .alloc (m.requests + 1), .alloc (m.requests + 2),
      .alloc (m.requests + 3)] }

/-- All that the stores of a value do when memory for its entries is granted. -/
theorem storeAll_eq {val : Int32} {m : Module} {result : Int} {root : RbTree Entry}
    (memory : ∀ call < 4, kernel.grants (m.requests + call) = true)
    (inserted : insertRbTree kernel m.root ⟨m.requests + 2, val⟩ = some (result, root)) :
    storeAll kernel val m =
      some (0, (radixTreeInsert kernel (unsignedLong val) ⟨m.requests + 3, val⟩
        (storedThree kernel val root m)).2) := by
  let listed := listAddTail ⟨m.requests, val⟩ (granted m)
  let hashed := hashAdd kernel ⟨m.requests + 1, val⟩ val (granted listed)
  let rooted : Module := { granted hashed with root := root }
  have inList : storeValue kernel val m = some (0, listed) :=
    storeValue_given (memory 0 (by omega))
  have inTable : storeHashValue kernel val listed = some (0, hashed) :=
    storeHashValue_given (memory 1 (by omega))
  have inTree : rbTreeInsert kernel val hashed = some (0, rooted) :=
    rbTreeInsert_given (memory 2 (by omega)) inserted
  have inSlots := @radixInsert_given kernel val rooted (memory 3 (by omega))
  have whole : granted rooted = storedThree kernel val root m := by
    simp only [rooted, hashed, listed, granted, hashAdd, listAddTail, storedThree,
      List.append_assoc, List.cons_append, List.nil_append]
  simp only [storeAll, inList, inTable, inTree, inSlots, whole]
  rfl

end Memory

end LKP.Proj2
