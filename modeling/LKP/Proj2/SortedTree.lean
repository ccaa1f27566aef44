import LKP.Proj2.FourViews

/-
`insert_rb_tree` on its own: the tree as a sorted list of distinct values.

Nothing is asked of the rebalancing here but that it keeps the order of the nodes.
An entry goes to its sorted position, or is refused when its value is there, so
that a tree grown from `RB_ROOT` shows the values it was given in order, each once.
-/

set_option autoImplicit false

namespace LKP.Proj2

open RedBlackTree

def entryLe (left right : Entry) : Prop := left.val ≤ right.val

instance : DecidableRel entryLe := fun left right =>
  inferInstanceAs (Decidable (left.val ≤ right.val))

theorem orderedInsert_between {insertion : Entry} {front back : List Entry}
    (smaller : ∀ entry ∈ front, entry.val < insertion.val)
    (larger : ∀ entry ∈ back, insertion.val < entry.val) :
    (front ++ back).orderedInsert entryLe insertion = front ++ insertion :: back := by
  induction front with
  | nil =>
      cases back with
      | nil => rfl
      | cons next rest =>
          have less : insertion.val < next.val := larger next List.mem_cons_self
          exact List.orderedInsert_cons_of_le entryLe rest (Int32.le_of_lt less)
  | cons first rest ih =>
      have less : first.val < insertion.val := smaller first List.mem_cons_self
      have notMore : ¬ entryLe insertion first := Int32.not_le.mpr less
      rw [List.cons_append, List.orderedInsert_of_not_le entryLe _ notMore,
        ih (fun entry member => smaller entry (List.mem_cons_of_mem _ member))]
      rfl

/-- The slot where an entry belongs is its sorted position. -/
theorem Belongs.orderedInsert {insertion : Entry} {slot : Slot Entry}
    (belongs : Belongs insertion slot) :
    (before slot ++ after slot).orderedInsert entryLe insertion =
      before slot ++ insertion :: after slot :=
  orderedInsert_between belongs.smaller belongs.larger

section Sorted

variable {kernel : Kernel}

theorem insertRbTree_sorted
    (preserves : ∀ tree insertion, (kernel.rbInsertColor tree insertion).inorder = tree.inorder)
    {treeRoot : RbTree Entry} {insertion : Entry} (search : SearchTree treeRoot)
    (absent : ∀ this ∈ treeRoot.inorder, this.val ≠ insertion.val) :
    ∃ root, insertRbTree kernel treeRoot insertion = some (0, root) ∧
      root.inorder = treeRoot.inorder.orderedInsert entryLe insertion ∧ SearchTree root := by
  obtain ⟨slot, inserted, whole, around, belongs⟩ :=
    @insertRbTree_linked kernel treeRoot insertion search absent
  have within : (kernel.rbInsertColor (plug slot (.node .red .nil insertion .nil))
      insertion).inorder = before slot ++ insertion :: after slot := by
    rw [preserves, linked_inorder]
  refine ⟨_, inserted, ?_, belongs.search search around within⟩
  rw [within, around, belongs.orderedInsert]

/-- In both cases the tree has the values it had and that of the entry. -/
theorem insertRbTree_search
    (preserves : ∀ tree insertion, (kernel.rbInsertColor tree insertion).inorder = tree.inorder)
    {treeRoot : RbTree Entry} (insertion : Entry) (search : SearchTree treeRoot) :
    ∃ result root, insertRbTree kernel treeRoot insertion = some (result, root) ∧
      SearchTree root ∧
      (result = -1 ↔ ∃ this ∈ treeRoot.inorder, this.val = insertion.val) ∧
      (result = -1 → root = treeRoot) ∧
      ∀ val, (∃ entry ∈ root.inorder, entry.val = val) ↔
        (∃ entry ∈ treeRoot.inorder, entry.val = val) ∨ val = insertion.val := by
  by_cases present : ∃ this ∈ treeRoot.inorder, this.val = insertion.val
  · refine ⟨-1, treeRoot, insertRbTree_present search present, search,
      iff_of_true rfl present, fun _ => rfl, ?_⟩
    intro val
    constructor
    · exact .inl
    · intro premise
      rcases premise with earlier | rfl
      · exact earlier
      · exact present
  · have absent : ∀ this ∈ treeRoot.inorder, this.val ≠ insertion.val :=
      fun this member same => present ⟨this, member, same⟩
    obtain ⟨root, inserted, order, sorted⟩ := insertRbTree_sorted preserves search absent
    refine ⟨0, root, inserted, sorted, iff_of_false (by decide) present,
      fun minus => absurd minus (by decide), ?_⟩
    intro val
    have entries : ∀ entry, entry ∈ root.inorder ↔
        entry = insertion ∨ entry ∈ treeRoot.inorder := by
      intro entry
      rw [order, List.mem_orderedInsert]
    constructor
    · intro premise
      obtain ⟨entry, member, rfl⟩ := premise
      rcases (entries entry).mp member with rfl | earlier
      · exact .inr rfl
      · exact .inl ⟨entry, earlier, rfl⟩
    · intro premise
      rcases premise with ⟨entry, earlier, rfl⟩ | rfl
      · exact ⟨entry, (entries entry).mpr (.inr earlier), rfl⟩
      · exact ⟨insertion, (entries insertion).mpr (.inl rfl), rfl⟩

def insertEach (kernel : Kernel) : List Entry → RbTree Entry → Option (RbTree Entry)
  | [], treeRoot => some treeRoot
  | insertion :: later, treeRoot =>
      match insertRbTree kernel treeRoot insertion with
      | none => none
      | some (_, root) => insertEach kernel later root

theorem insertEach_holds
    (preserves : ∀ tree insertion, (kernel.rbInsertColor tree insertion).inorder = tree.inorder)
    {insertions : List Entry} {treeRoot : RbTree Entry} {values : List Int32}
    (search : SearchTree treeRoot)
    (members : ∀ val, (∃ entry ∈ treeRoot.inorder, entry.val = val) ↔ val ∈ values) :
    ∃ root, insertEach kernel insertions treeRoot = some root ∧ SearchTree root ∧
      ∀ val, (∃ entry ∈ root.inorder, entry.val = val) ↔
        val ∈ values ++ insertions.map Entry.val := by
  induction insertions generalizing treeRoot values with
  | nil =>
      refine ⟨treeRoot, rfl, search, ?_⟩
      intro val
      rw [members, List.map_nil, List.append_nil]
  | cons insertion later ih =>
      obtain ⟨result, root, inserted, sorted, _, _, added⟩ :=
        insertRbTree_search preserves insertion search
      rw [insertEach, inserted, List.map_cons, List.append_cons]
      apply ih sorted
      intro val
      rw [added, members, List.mem_append, List.mem_singleton]

/-- `insert_rb_tree` keeps a search tree: a value that is present is refused and changes
nothing, an absent one goes to its sorted position.  So a tree that starts as `RB_ROOT` has the
distinct values it was given, in order. -/
theorem insertRbTree_keeps_order
    (preserves : ∀ tree insertion,
      (kernel.rbInsertColor tree insertion).inorder = tree.inorder) :
    (∀ treeRoot insertion, SearchTree treeRoot →
      ((∃ this ∈ treeRoot.inorder, this.val = insertion.val) →
        insertRbTree kernel treeRoot insertion = some (-1, treeRoot)) ∧
      ((∀ this ∈ treeRoot.inorder, this.val ≠ insertion.val) →
        ∃ root, insertRbTree kernel treeRoot insertion = some (0, root) ∧
          root.inorder = treeRoot.inorder.orderedInsert entryLe insertion ∧
          SearchTree root)) ∧
    (∀ insertions, ∃ root, insertEach kernel insertions .nil = some root ∧
      root.inorder.map (fun entry => entry.val.toInt) =
        (insertions.map (fun entry => entry.val.toInt)).toFinset.sort (· ≤ ·)) := by
  constructor
  · intro treeRoot insertion search
    exact ⟨insertRbTree_present search, insertRbTree_sorted preserves search⟩
  · intro insertions
    have search : SearchTree .nil := List.Pairwise.nil
    have none : ∀ val, (∃ entry ∈ (RbTree.nil : RbTree Entry).inorder, entry.val = val) ↔
        val ∈ ([] : List Int32) := by
      intro val
      simp [RbTree.inorder]
    obtain ⟨root, inserted, sorted, members⟩ :=
      @insertEach_holds kernel preserves insertions .nil [] search none
    refine ⟨root, inserted, ?_⟩
    have shown := search_line sorted members
    rw [numbersOf, numbersOf, List.map_map, List.nil_append, List.map_map] at shown
    exact shown

theorem insertRbTree_keeps_order_plain :
    (∃ root, insertRbTree plainKernel .nil ⟨7, 3⟩ = some (0, root) ∧
      root.inorder = [⟨7, 3⟩] ∧ SearchTree root) ∧
    (∃ root, insertEach plainKernel [⟨1, 5⟩, ⟨2, -4⟩, ⟨3, 5⟩] .nil = some root ∧
      root.inorder.map (fun entry => entry.val.toInt) =
        ([5, -4, 5] : List Int).toFinset.sort (· ≤ ·)) := by
  have general := @insertRbTree_keeps_order plainKernel
    plainKernel_documented.insertColor_inorder
  constructor
  · exact (general.1 .nil ⟨7, 3⟩ List.Pairwise.nil).2
      (fun this member => absurd member List.not_mem_nil)
  · exact general.2 [⟨1, 5⟩, ⟨2, -4⟩, ⟨3, 5⟩]

end Sorted

end LKP.Proj2
