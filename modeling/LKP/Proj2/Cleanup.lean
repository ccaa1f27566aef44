import LKP.Proj2.Parsing

/-
What `cleanup` leaves: four empty structures, and a ledger that says what was freed.

Each loop deletes the entry it stands on, so it is followed on the list of the
entries it has left.  For the tree this is the in-order list; the next node is
reached by the links of the one just erased.
-/

set_option autoImplicit false

namespace LKP.Proj2

open RedBlackTree

def frees (entries : List Entry) : List MemoryEvent :=
  entries.map (fun entry => .free entry.address)

@[simp] theorem frees_nil : frees [] = [] := rfl

theorem ledger_frees (ledger : List MemoryEvent) (entry : Entry) (rest : List Entry) :
    (ledger ++ [.free entry.address]) ++ frees rest = ledger ++ frees (entry :: rest) := by
  rw [List.append_assoc]
  rfl

/-! ### The list and the hash table -/

theorem destroyLoop_eq {entries : List Entry} {m : Module} (left : m.mylist = entries) :
    destroyLoop entries m = { m with mylist := [], ledger := m.ledger ++ frees entries } := by
  induction entries generalizing m with
  | nil => rw [destroyLoop, frees_nil, List.append_nil, ← left]
  | cons data rest ih =>
      have shorter : (kfree data.address (listDel data m)).mylist = rest := by
        change m.mylist.erase data = rest
        rw [left, List.erase_cons_head]
      rw [destroyLoop, ih shorter]
      simp only [kfree, listDel, ledger_frees]

theorem removeBucket_eq {bucket : Bucket} {entries : List Entry} {m : Module}
    (left : m.myHTable bucket = entries) :
    removeBucket bucket entries m =
      { m with
        myHTable := Function.update m.myHTable bucket []
        ledger := m.ledger ++ frees entries } := by
  induction entries generalizing m with
  | nil => rw [removeBucket, frees_nil, List.append_nil, ← left, Function.update_eq_self]
  | cons pos rest ih =>
      have shorter : (kfree pos.address (hashDel bucket pos m)).myHTable bucket = rest := by
        change Function.update m.myHTable bucket ((m.myHTable bucket).erase pos) bucket = rest
        rw [Function.update_self, left, List.erase_cons_head]
      rw [removeBucket, ih shorter]
      simp only [kfree, hashDel, ledger_frees, Function.update_idem]

theorem removeBuckets_eq {buckets : List Bucket} (nodup : buckets.Nodup) (m : Module) :
    buckets.foldl (fun m bucket => removeBucket bucket (m.myHTable bucket) m) m =
      { m with
        myHTable := fun bucket => if bucket ∈ buckets then [] else m.myHTable bucket
        ledger := m.ledger ++ frees (buckets.flatMap m.myHTable) } := by
  induction buckets generalizing m with
  | nil =>
      simp only [List.foldl_nil, List.not_mem_nil, if_false, List.flatMap_nil, frees_nil,
        List.append_nil]
  | cons bucket rest ih =>
      obtain ⟨notAgain, restNodup⟩ := List.nodup_cons.mp nodup
      have others : rest.flatMap (Function.update m.myHTable bucket []) =
          rest.flatMap m.myHTable := by
        apply List.flatMap_congr
        intro other inRest
        apply Function.update_of_ne
        intro same
        subst same
        exact notAgain inRest
      have tables : (fun other => if other ∈ rest then []
          else Function.update m.myHTable bucket [] other) =
          fun other => if other ∈ bucket :: rest then [] else m.myHTable other := by
        funext other
        by_cases here : other = bucket
        · subst here
          simp only [Function.update_self, ite_self, List.mem_cons, true_or, if_true]
        · simp only [Function.update_of_ne here, List.mem_cons, here, false_or]
      rw [List.foldl_cons, removeBucket_eq rfl, ih restNodup, tables, others,
        List.flatMap_cons, frees, frees, frees, List.map_append, List.append_assoc]

theorem removeHashTable_eq (m : Module) :
    removeHashTable m =
      { m with
        myHTable := fun _ => []
        ledger := m.ledger ++ frees (hashEntries m.myHTable) } := by
  rw [removeHashTable, removeBuckets_eq (List.nodup_finRange _)]
  simp only [List.mem_finRange, if_true, hashEntries]

/-! ### The trees -/

/-- From the first node on, every step by the links of an erased node reaches the first
node of what is left, so that the loop erases all of them. -/
theorem rbRemoveLoop_eq {kernel : Kernel} (documented : kernel.Documented)
    {nodes : List Entry} {m : Module} (order : m.root.inorder = nodes) (nodup : nodes.Nodup)
    (shape : RedBlack m.root) :
    rbRemoveLoop kernel nodes.length nodes.head? m =
      some { m with root := .nil, ledger := m.ledger ++ frees nodes } := by
  induction nodes generalizing m with
  | nil =>
      have root : m.root = .nil := by
        cases tree : m.root with
        | nil => rfl
        | node color left item right =>
            rw [tree] at order
            exact absurd order (by simp [RbTree.inorder])
      simp only [List.length_nil, List.head?_nil, rbRemoveLoop, frees_nil, List.append_nil,
        ← root]
  | cons iternode rest ih =>
      have member : iternode ∈ m.root.inorder := by
        rw [order]
        exact List.mem_cons_self
      have whole : m.root.inorder.Nodup := by rwa [order]
      have erased : (kernel.rbErase m.root iternode).inorder = rest :=
        documented.erase_inorder m.root [] iternode rest order whole
      obtain ⟨links, held, onward⟩ := next_stale shape order whole erased
      have shapeLeft := documented.erase_redBlack m.root iternode shape member
      let after := kfree iternode.address { m with root := kernel.rbErase m.root iternode }
      have again : rbRemoveLoop kernel rest.length rest.head? after =
          some { after with root := .nil, ledger := after.ledger ++ frees rest } :=
        ih erased (List.nodup_cons.mp nodup).2 shapeLeft
      simp only [List.length_cons, List.head?_cons, rbRemoveLoop, held, onward]
      rw [again]
      simp only [after, kfree, ledger_frees]

theorem rbTreeRemove_eq {kernel : Kernel} (documented : kernel.Documented) {m : Module}
    (search : SearchTree m.root) (shape : RedBlack m.root) :
    rbTreeRemove kernel m =
      some { m with root := .nil, ledger := m.ledger ++ frees m.root.inorder } := by
  rw [rbTreeRemove, RbTree.first_eq_head]
  exact rbRemoveLoop_eq documented rfl search.nodup shape

theorem radixDeletes_eq (indices : List UInt64) (m : Module) :
    ∃ slots, indices.foldl (fun m index => radixTreeDelete index m) m =
        { m with radixTree := slots } ∧
      ∀ index, index ∈ slots ↔ index ∈ m.radixTree ∧ index ∉ indices := by
  induction indices generalizing m with
  | nil =>
      refine ⟨m.radixTree, rfl, ?_⟩
      intro index
      simp
  | cons first rest ih =>
      obtain ⟨slots, same, left⟩ := ih (radixTreeDelete first m)
      refine ⟨slots, by rw [List.foldl_cons, same]; rfl, ?_⟩
      intro index
      rw [left, radixTreeDelete, Std.TreeMap.mem_erase, List.mem_cons, not_or]
      simp only [ne_eq, Std.LawfulEqCmp.compare_eq_iff_eq]
      constructor
      · intro premise
        obtain ⟨⟨different, member⟩, notLater⟩ := premise
        exact ⟨member, fun same => different same.symm, notLater⟩
      · intro premise
        obtain ⟨member, different, notLater⟩ := premise
        exact ⟨⟨fun same => different same.symm, member⟩, notLater⟩

theorem radixRemove_eq (m : Module) :
    ∃ slots, radixRemove m = { m with radixTree := slots } ∧ slots.isEmpty = true := by
  obtain ⟨slots, same, left⟩ := radixDeletes_eq m.radixTree.keys m
  refine ⟨slots, same, ?_⟩
  apply Std.TreeMap.isEmpty_iff_forall_not_mem.mpr
  intro index member
  obtain ⟨there, notKey⟩ := (left index).mp member
  exact notKey (Std.TreeMap.mem_keys.mpr there)

/-! ### All of it -/

/-- Once the tree is gone, only the radix tree is left. -/
theorem cleanup_of_trees {kernel : Kernel} {m hashed treeless : Module}
    (earlier : removeHashTable (destroyLinkedListAndFree (printk "\nCleaning up...\n" m)) = hashed)
    (trees : rbTreeRemove kernel hashed = some treeless) :
    cleanup kernel m = some (radixRemove treeless) := by
  simp only [cleanup, earlier, trees]

/-- `cleanup` ends, with everything empty and the entries of three structures freed. -/
theorem cleanup_eq {kernel : Kernel} (documented : kernel.Documented) {m : Module}
    (search : SearchTree m.root) (shape : RedBlack m.root) :
    ∃ slots, cleanup kernel m =
        some { m with
          mylist := []
          myHTable := fun _ => []
          root := .nil
          radixTree := slots
          ledger := m.ledger ++ frees m.mylist ++ frees (hashEntries m.myHTable) ++
            frees m.root.inorder
          log := m.log ++ ["\nCleaning up...\n"] } ∧
      slots.isEmpty = true := by
  have listed : destroyLinkedListAndFree (printk "\nCleaning up...\n" m) =
      { m with
        mylist := []
        ledger := m.ledger ++ frees m.mylist
        log := m.log ++ ["\nCleaning up...\n"] } := destroyLoop_eq rfl
  let hashed : Module :=
    { m with
      mylist := []
      myHTable := fun _ => []
      ledger := m.ledger ++ frees m.mylist ++ frees (hashEntries m.myHTable)
      log := m.log ++ ["\nCleaning up...\n"] }
  have earlier :
      removeHashTable (destroyLinkedListAndFree (printk "\nCleaning up...\n" m)) = hashed := by
    rw [listed, removeHashTable_eq]
  have trees : rbTreeRemove kernel hashed =
      some { hashed with root := .nil, ledger := hashed.ledger ++ frees m.root.inorder } :=
    rbTreeRemove_eq documented search shape
  obtain ⟨slots, radix, empty⟩ := radixRemove_eq
    { hashed with root := .nil, ledger := hashed.ledger ++ frees m.root.inorder }
  refine ⟨slots, ?_, empty⟩
  rw [cleanup_of_trees earlier trees]
  exact congrArg some radix

theorem cleanup_empties {kernel : Kernel} (documented : kernel.Documented) {m : Module}
    (search : SearchTree m.root) (shape : RedBlack m.root) :
    ∃ after, cleanup kernel m = some after ∧ after.Empty ∧ after.intStr = m.intStr := by
  obtain ⟨slots, ended, empty⟩ := cleanup_eq documented search shape
  exact ⟨_, ended, ⟨rfl, fun _ => rfl, rfl, empty⟩, rfl⟩

end LKP.Proj2
