import LKP.Library.TreeMirror

/-
Labelled trees written as lists of labels with their depths.

A node comes before those below it, and what stands after a forest in the list is less
deep than the forest.  So the forest ends where the depth falls, and the list
determines the tree.
-/

set_option autoImplicit false

namespace LKP.TreeMirror

variable {Label : Type}

mutual

def LabelTree.listed (depth : Nat) : LabelTree Label → List (Nat × Label)
  | .node label children => (depth, label) :: listedAll (depth + 1) children

def listedAll (depth : Nat) : List (LabelTree Label) → List (Nat × Label)
  | [] => []
  | tree :: rest => tree.listed depth ++ listedAll depth rest

end

@[simp] theorem listedAll_nil (depth : Nat) :
    listedAll depth ([] : List (LabelTree Label)) = [] := by
  rw [listedAll]

@[simp] theorem listedAll_cons (depth : Nat) (tree : LabelTree Label)
    (rest : List (LabelTree Label)) :
    listedAll depth (tree :: rest) = tree.listed depth ++ listedAll depth rest := by
  rw [listedAll]

mutual

theorem listed_labels (depth : Nat) : ∀ tree : LabelTree Label,
    (tree.listed depth).map Prod.snd = tree.labels
  | .node label children => by
      rw [LabelTree.listed, List.map_cons, listedAll_labels (depth + 1) children, labels_node]

theorem listedAll_labels (depth : Nat) : ∀ forest : List (LabelTree Label),
    (listedAll depth forest).map Prod.snd = labelsOf forest
  | [] => by
      rw [listedAll_nil, labelsOf_nil]
      rfl
  | tree :: rest => by
      rw [listedAll_cons, List.map_append, listed_labels depth tree, listedAll_labels depth rest,
        labelsOf_cons]

end

def Shallow (depth : Nat) (listing : List (Nat × Label)) : Prop :=
  ∀ first ∈ listing.head?, first.1 < depth

/-- After the children of a node the list goes on at most as deep as the node. -/
theorem Shallow.under {depth : Nat} {listing : List (Nat × Label)}
    (shallow : Shallow depth listing) (beside : List (LabelTree Label)) :
    Shallow (depth + 1) (listedAll depth beside ++ listing) := by
  intro first head
  cases beside with
  | nil =>
      rw [listedAll_nil, List.nil_append] at head
      exact Nat.lt_succ_of_lt (shallow first head)
  | cons tree rest =>
      cases tree with
      | node label children =>
          rw [listedAll_cons, LabelTree.listed] at head
          cases head
          exact Nat.lt_succ_self depth

/-- A forest begins at its own depth, so nothing shallow is one that is not empty. -/
theorem Shallow.not_listed {depth : Nat} {listing after : List (Nat × Label)}
    (shallow : Shallow depth listing) (tree : LabelTree Label) (rest : List (LabelTree Label)) :
    listing ≠ listedAll depth (tree :: rest) ++ after := by
  intro same
  cases tree with
  | node label children =>
      rw [listedAll_cons, LabelTree.listed] at same
      have deep : depth < depth := shallow (depth, label) (by rw [same]; rfl)
      exact Nat.lt_irrefl depth deep

/-- Where two lists of forests agree, the forests do, and what stands behind them. -/
theorem listedAll_cancel : ∀ (forest other : List (LabelTree Label)) (depth : Nat)
    (after behind : List (Nat × Label)), Shallow depth after → Shallow depth behind →
    listedAll depth forest ++ after = listedAll depth other ++ behind →
    forest = other ∧ after = behind
  | [], [], depth, after, behind, _, _, same => by
      rw [listedAll_nil] at same
      exact ⟨rfl, same⟩
  | [], tree :: rest, depth, after, behind, shallow, _, same => by
      rw [listedAll_nil, List.nil_append] at same
      exact absurd same (shallow.not_listed tree rest)
  | tree :: rest, [], depth, after, behind, _, shallow, same => by
      rw [listedAll_nil, List.nil_append] at same
      exact absurd same.symm (shallow.not_listed tree rest)
  | .node label children :: rest, .node label' children' :: rest', depth, after, behind,
      shallowAfter, shallowBehind, same => by
      rw [listedAll_cons, listedAll_cons, LabelTree.listed, LabelTree.listed, List.cons_append,
        List.cons_append, List.append_assoc, List.append_assoc] at same
      obtain ⟨head, tail⟩ := List.cons.inj same
      have labels : label = label' := congrArg Prod.snd head
      obtain ⟨below, beside⟩ := listedAll_cancel children children' (depth + 1) _ _
        (shallowAfter.under rest) (shallowBehind.under rest') tail
      obtain ⟨others, behinds⟩ :=
        listedAll_cancel rest rest' depth after behind shallowAfter shallowBehind beside
      rw [labels, below, others]
      exact ⟨rfl, behinds⟩

theorem listed_injective {depth : Nat} {tree other : LabelTree Label}
    (same : tree.listed depth = other.listed depth) : tree = other := by
  have nothing : Shallow depth ([] : List (Nat × Label)) := by
    intro first head
    cases head
  have whole : listedAll depth [tree] ++ [] = listedAll depth [other] ++ [] := by
    rw [listedAll_cons, listedAll_cons, same]
  obtain ⟨forests, _⟩ := listedAll_cancel [tree] [other] depth [] [] nothing nothing whole
  exact (List.cons.inj forests).1

end LKP.TreeMirror
