import Mathlib

/-
Labelled trees laid out as directories.

A node without children becomes a file; any other becomes a directory with its own
file in front of what its children become.  Trees are compared up to the order of
siblings.  No label is lost on the way: the layout determines the tree.
-/

set_option autoImplicit false

namespace LKP.TreeMirror

/-! ### Labelled trees -/

inductive LabelTree (Label : Type) where
  | node (label : Label) (children : List (LabelTree Label))

section Labels

variable {Label : Type}

def LabelTree.label : LabelTree Label → Label
  | .node label _ => label

def LabelTree.children : LabelTree Label → List (LabelTree Label)
  | .node _ children => children

mutual

/-- All nodes, each before those below it. -/
def LabelTree.nodes : LabelTree Label → List (LabelTree Label)
  | .node label children => .node label children :: nodesOf children

def nodesOf : List (LabelTree Label) → List (LabelTree Label)
  | [] => []
  | tree :: rest => tree.nodes ++ nodesOf rest

end

def LabelTree.labels (tree : LabelTree Label) : List Label := tree.nodes.map LabelTree.label

def labelsOf (forest : List (LabelTree Label)) : List Label :=
  (nodesOf forest).map LabelTree.label

@[simp] theorem labels_node (label : Label) (children : List (LabelTree Label)) :
    (LabelTree.node label children).labels = label :: labelsOf children := by
  simp only [LabelTree.labels, LabelTree.nodes, List.map_cons, LabelTree.label, labelsOf]

@[simp] theorem labelsOf_nil : labelsOf ([] : List (LabelTree Label)) = [] := by
  simp only [labelsOf, nodesOf, List.map_nil]

@[simp] theorem labelsOf_cons (tree : LabelTree Label) (rest : List (LabelTree Label)) :
    labelsOf (tree :: rest) = tree.labels ++ labelsOf rest := by
  simp only [labelsOf, nodesOf, List.map_append, LabelTree.labels]

theorem labels_sublist (forest : List (LabelTree Label)) :
    (forest.map LabelTree.label).Sublist (labelsOf forest) := by
  induction forest with
  | nil => exact List.nil_sublist _
  | cons tree rest ih =>
      cases tree with
      | node label children =>
          rw [List.map_cons, labelsOf_cons, labels_node, List.cons_append]
          exact (ih.trans (List.sublist_append_right _ _)).cons_cons label

mutual

theorem labels_below : ∀ (tree : LabelTree Label) {below : LabelTree Label},
    below ∈ tree.nodes → below.labels.Sublist tree.labels
  | .node label children, below, member => by
      rw [LabelTree.nodes] at member
      rcases List.mem_cons.mp member with rfl | deeper
      · exact List.Sublist.refl _
      · rw [labels_node label children]
        exact (labelsOf_below children deeper).trans (List.sublist_cons_self _ _)

theorem labelsOf_below : ∀ (forest : List (LabelTree Label)) {below : LabelTree Label},
    below ∈ nodesOf forest → below.labels.Sublist (labelsOf forest)
  | [], below, member => by
      rw [nodesOf] at member
      cases member
  | tree :: rest, below, member => by
      rw [nodesOf] at member
      rw [labelsOf_cons]
      rcases List.mem_append.mp member with here | later
      · exact (labels_below tree here).trans (List.sublist_append_left _ _)
      · exact (labelsOf_below rest later).trans (List.sublist_append_right _ _)

end

/-- Trees side by side, up to the order of siblings at every level. -/
inductive LabelTree.Reordered : List (LabelTree Label) → List (LabelTree Label) → Prop
  | nil : Reordered [] []
  | cons (label : Label) {children children' rest rest' : List (LabelTree Label)}
      (below : Reordered children children') (beside : Reordered rest rest') :
      Reordered (.node label children :: rest) (.node label children' :: rest')
  | swap (first second : LabelTree Label) (rest : List (LabelTree Label)) :
      Reordered (first :: second :: rest) (second :: first :: rest)
  | trans {first second third : List (LabelTree Label)} (left : Reordered first second)
      (right : Reordered second third) : Reordered first third

theorem LabelTree.Reordered.refl : ∀ forest : List (LabelTree Label), Reordered forest forest
  | [] => .nil
  | .node label children :: rest => .cons label (refl children) (refl rest)

theorem LabelTree.Reordered.isEmpty {left right : List (LabelTree Label)}
    (same : Reordered left right) : left.isEmpty = right.isEmpty := by
  induction same with
  | nil => rfl
  | cons label below beside _ _ => rfl
  | swap first second rest => rfl
  | trans left right ihLeft ihRight => exact ihLeft.trans ihRight

end Labels

/-! ### Directories -/

inductive Kind where
  | file
  | directory
deriving DecidableEq

inductive DirectoryTree (Name : Type) where
  | file (name : Name)
  | directory (name : Name) (entries : List (DirectoryTree Name))

section Names

variable {Name : Type}

def DirectoryTree.heading : DirectoryTree Name → Kind × Name
  | .file name => (.file, name)
  | .directory name _ => (.directory, name)

mutual

def DirectoryTree.files : DirectoryTree Name → List Name
  | .file name => [name]
  | .directory _ entries => filesOf entries

def filesOf : List (DirectoryTree Name) → List Name
  | [] => []
  | tree :: rest => tree.files ++ filesOf rest

end

mutual

def DirectoryTree.listings : DirectoryTree Name → List (Name × List (Kind × Name))
  | .file _ => []
  | .directory name entries =>
      (name, entries.map DirectoryTree.heading) :: listingsOf entries

def listingsOf : List (DirectoryTree Name) → List (Name × List (Kind × Name))
  | [] => []
  | tree :: rest => tree.listings ++ listingsOf rest

end

inductive DirectoryTree.Reordered :
    List (DirectoryTree Name) → List (DirectoryTree Name) → Prop
  | nil : Reordered [] []
  | file (name : Name) {rest rest' : List (DirectoryTree Name)}
      (beside : Reordered rest rest') : Reordered (.file name :: rest) (.file name :: rest')
  | directory (name : Name) {entries entries' rest rest' : List (DirectoryTree Name)}
      (below : Reordered entries entries') (beside : Reordered rest rest') :
      Reordered (.directory name entries :: rest) (.directory name entries' :: rest')
  | swap (first second : DirectoryTree Name) (rest : List (DirectoryTree Name)) :
      Reordered (first :: second :: rest) (second :: first :: rest)
  | trans {first second third : List (DirectoryTree Name)} (left : Reordered first second)
      (right : Reordered second third) : Reordered first third

end Names

/-! ### The layout -/

section Mirror

variable {Label Name : Type} (name : Label → Name)

mutual

def mirror : LabelTree Label → DirectoryTree Name
  | .node label children =>
      if children.isEmpty then .file (name label)
      else .directory (name label) (.file (name label) :: mirrorAll children)

def mirrorAll : List (LabelTree Label) → List (DirectoryTree Name)
  | [] => []
  | tree :: rest => mirror tree :: mirrorAll rest

end

def entryOf (tree : LabelTree Label) : Kind × Name :=
  (if tree.children.isEmpty then .file else .directory, name tree.label)

/-- The directory of a node that has children: its own file and the entries of the children. -/
def directoryOf (tree : LabelTree Label) : Name × List (Kind × Name) :=
  (name tree.label, (.file, name tree.label) :: tree.children.map (entryOf name))

theorem mirror_leaf (label : Label) : mirror name (.node label []) = .file (name label) := by
  rw [mirror]
  rfl

theorem mirror_branch (label : Label) (child : LabelTree Label)
    (rest : List (LabelTree Label)) :
    mirror name (.node label (child :: rest)) =
      .directory (name label) (.file (name label) :: mirrorAll name (child :: rest)) := by
  rw [mirror]
  rfl

theorem heading_mirror (tree : LabelTree Label) :
    (mirror name tree).heading = entryOf name tree := by
  cases tree with
  | node label children =>
      cases children with
      | nil =>
          rw [mirror_leaf]
          rfl
      | cons child rest =>
          rw [mirror_branch]
          rfl

theorem headings_mirrorAll (forest : List (LabelTree Label)) :
    (mirrorAll name forest).map DirectoryTree.heading = forest.map (entryOf name) := by
  induction forest with
  | nil =>
      rw [mirrorAll]
      rfl
  | cons tree rest ih =>
      rw [mirrorAll, List.map_cons, List.map_cons, ih, heading_mirror]

mutual

/-- Every node has one file, and there is no other. -/
theorem files_mirror : ∀ tree : LabelTree Label, (mirror name tree).files = tree.labels.map name
  | .node label [] => by
      rw [mirror_leaf, DirectoryTree.files, labels_node, labelsOf_nil]
      rfl
  | .node label (child :: rest) => by
      rw [mirror_branch, DirectoryTree.files, filesOf, DirectoryTree.files,
        filesOf_mirrorAll (child :: rest), labels_node]
      rfl

theorem filesOf_mirrorAll : ∀ forest : List (LabelTree Label),
    filesOf (mirrorAll name forest) = (labelsOf forest).map name
  | [] => by
      rw [mirrorAll, filesOf, labelsOf_nil]
      rfl
  | tree :: rest => by
      rw [mirrorAll, filesOf, files_mirror tree, filesOf_mirrorAll rest, labelsOf_cons,
        List.map_append]

end

def branches (nodes : List (LabelTree Label)) : List (LabelTree Label) :=
  nodes.filter (fun tree => !tree.children.isEmpty)

mutual

/-- Every node with children has one directory, and there is no other. -/
theorem listings_mirror : ∀ tree : LabelTree Label,
    (mirror name tree).listings = (branches tree.nodes).map (directoryOf name)
  | .node label [] => by
      rw [mirror_leaf, DirectoryTree.listings, LabelTree.nodes, nodesOf]
      rfl
  | .node label (child :: rest) => by
      have own : branches (LabelTree.node label (child :: rest) :: nodesOf (child :: rest)) =
          .node label (child :: rest) :: branches (nodesOf (child :: rest)) := rfl
      rw [mirror_branch, DirectoryTree.listings, listingsOf, DirectoryTree.listings,
        listingsOf_mirrorAll (child :: rest), LabelTree.nodes, own, List.map_cons,
        List.map_cons, headings_mirrorAll]
      rfl

theorem listingsOf_mirrorAll : ∀ forest : List (LabelTree Label),
    listingsOf (mirrorAll name forest) = (branches (nodesOf forest)).map (directoryOf name)
  | [] => by
      rw [mirrorAll, listingsOf, nodesOf]
      rfl
  | tree :: rest => by
      rw [mirrorAll, listingsOf, listings_mirror tree, listingsOf_mirrorAll rest, nodesOf,
        branches, branches, branches, List.filter_append, List.map_append]

end

/-! ### Distinct names -/

theorem directoryOf_nodup {tree below : LabelTree Label} (distinct : tree.labels.Nodup)
    (injective : ∀ left ∈ tree.labels, ∀ right ∈ tree.labels, name left = name right → left = right)
    (member : below ∈ tree.nodes) :
    ((directoryOf name below).2.map Prod.snd).Nodup := by
  have among := labels_below tree member
  cases below with
  | node label children =>
      rw [labels_node] at among
      have listed : ((directoryOf name (.node label children)).2.map Prod.snd) =
          (label :: children.map LabelTree.label).map name := by
        simp only [directoryOf, LabelTree.label, LabelTree.children, List.map_cons, List.map_map]
        rfl
      have shown : (label :: children.map LabelTree.label).Sublist tree.labels :=
        ((labels_sublist children).cons_cons label).trans among
      rw [listed]
      apply List.Nodup.map_on _ (distinct.sublist shown)
      intro left leftMember right rightMember same
      exact injective left (shown.subset leftMember) right (shown.subset rightMember) same

/-! ### The tree back from its layout -/

section Inverse

variable [DecidableEq Name] (decode : Name → Label)

mutual

/-- The trees that entries stand for, without the file of the directory they are in. -/
def unmirror : DirectoryTree Name → LabelTree Label
  | .file name => .node (decode name) []
  | .directory name entries => .node (decode name) (unmirrorAll (some name) entries)

def unmirrorAll (own : Option Name) : List (DirectoryTree Name) → List (LabelTree Label)
  | [] => []
  | tree :: rest =>
      if some tree.heading.2 = own ∧ tree.heading.1 = .file then unmirrorAll own rest
      else unmirror tree :: unmirrorAll own rest

end

theorem unmirrorAll_kept {own : Option Name} (tree : DirectoryTree Name)
    (rest : List (DirectoryTree Name))
    (other : ¬ (some tree.heading.2 = own ∧ tree.heading.1 = .file)) :
    unmirrorAll decode own (tree :: rest) =
      unmirror decode tree :: unmirrorAll decode own rest := by
  rw [unmirrorAll, if_neg other]

theorem unmirrorAll_skipped {own : Option Name} (tree : DirectoryTree Name)
    (rest : List (DirectoryTree Name))
    (same : some tree.heading.2 = own ∧ tree.heading.1 = .file) :
    unmirrorAll decode own (tree :: rest) = unmirrorAll decode own rest := by
  rw [unmirrorAll, if_pos same]

theorem unmirrorAll_reordered {left right : List (DirectoryTree Name)}
    (same : DirectoryTree.Reordered left right) (own : Option Name) :
    LabelTree.Reordered (unmirrorAll decode own left) (unmirrorAll decode own right) := by
  induction same generalizing own with
  | nil => exact .refl _
  | file name beside ih =>
      by_cases skipped : some name = own
      · rw [unmirrorAll_skipped decode (.file name) _ ⟨skipped, rfl⟩,
          unmirrorAll_skipped decode (.file name) _ ⟨skipped, rfl⟩]
        exact ih own
      · rw [unmirrorAll_kept decode (.file name) _ (fun both => skipped both.1),
          unmirrorAll_kept decode (.file name) _ (fun both => skipped both.1), unmirror]
        exact .cons (decode name) .nil (ih own)
  | directory name below beside ihBelow ihBeside =>
      rw [unmirrorAll_kept decode (.directory name _) _ (fun both => Kind.noConfusion both.2),
        unmirrorAll_kept decode (.directory name _) _ (fun both => Kind.noConfusion both.2),
        unmirror, unmirror]
      exact .cons (decode name) (ihBelow (some name)) (ihBeside own)
  | swap first second rest =>
      by_cases skipFirst : some first.heading.2 = own ∧ first.heading.1 = .file
      · by_cases skipSecond : some second.heading.2 = own ∧ second.heading.1 = .file
        · rw [unmirrorAll_skipped decode _ _ skipFirst, unmirrorAll_skipped decode _ _ skipSecond,
            unmirrorAll_skipped decode _ _ skipSecond, unmirrorAll_skipped decode _ _ skipFirst]
          exact .refl _
        · rw [unmirrorAll_skipped decode _ _ skipFirst, unmirrorAll_kept decode _ _ skipSecond,
            unmirrorAll_kept decode _ _ skipSecond, unmirrorAll_skipped decode _ _ skipFirst]
          exact .refl _
      · by_cases skipSecond : some second.heading.2 = own ∧ second.heading.1 = .file
        · rw [unmirrorAll_kept decode _ _ skipFirst, unmirrorAll_skipped decode _ _ skipSecond,
            unmirrorAll_skipped decode _ _ skipSecond, unmirrorAll_kept decode _ _ skipFirst]
          exact .refl _
        · rw [unmirrorAll_kept decode _ _ skipFirst, unmirrorAll_kept decode _ _ skipSecond,
            unmirrorAll_kept decode _ _ skipSecond, unmirrorAll_kept decode _ _ skipFirst]
          exact .swap _ _ _
  | trans left right ihLeft ihRight => exact .trans (ihLeft own) (ihRight own)

mutual

theorem unmirror_mirror : ∀ tree : LabelTree Label,
    (∀ label ∈ tree.labels, decode (name label) = label) → tree.labels.Nodup →
    unmirror decode (mirror name tree) = tree
  | .node label [], inverse, _ => by
      have here := inverse label (by simp)
      rw [mirror_leaf, unmirror, here]
  | .node label (child :: rest), inverse, distinct => by
      rw [labels_node] at inverse distinct
      obtain ⟨notBelow, distinctBelow⟩ := List.nodup_cons.mp distinct
      have here := inverse label List.mem_cons_self
      have inverseBelow : ∀ other ∈ labelsOf (child :: rest), decode (name other) = other :=
        fun other member => inverse other (List.mem_cons_of_mem _ member)
      have apart : ∀ other ∈ labelsOf (child :: rest), some (name other) ≠ some (name label) := by
        intro other member same
        have equal := congrArg decode (Option.some.inj same)
        rw [inverseBelow other member, here] at equal
        exact notBelow (equal ▸ member)
      have below := unmirrorAll_mirrorAll (child :: rest) (some (name label)) inverseBelow
        distinctBelow apart
      have ownFile := @unmirrorAll_skipped Label Name _ decode (some (name label))
        (.file (name label)) (mirrorAll name (child :: rest)) ⟨rfl, rfl⟩
      rw [mirror_branch, unmirror, here, ownFile, below]

theorem unmirrorAll_mirrorAll : ∀ (forest : List (LabelTree Label)) (own : Option Name),
    (∀ label ∈ labelsOf forest, decode (name label) = label) → (labelsOf forest).Nodup →
    (∀ label ∈ labelsOf forest, some (name label) ≠ own) →
    unmirrorAll decode own (mirrorAll name forest) = forest
  | [], own, _, _, _ => by rw [mirrorAll, unmirrorAll]
  | tree :: rest, own, inverse, distinct, apart => by
      rw [labelsOf_cons] at inverse distinct apart
      have top : tree.label ∈ tree.labels := by
        cases tree with
        | node label children =>
            rw [labels_node]
            exact List.mem_cons_self
      have kept : ¬ (some (mirror name tree).heading.2 = own ∧
          (mirror name tree).heading.1 = .file) := by
        rw [heading_mirror]
        exact fun both => apart tree.label (List.mem_append_left _ top) both.1
      have first := unmirror_mirror tree
        (fun label member => inverse label (List.mem_append_left _ member))
        (distinct.sublist (List.sublist_append_left _ _))
      have later := unmirrorAll_mirrorAll rest own
        (fun label member => inverse label (List.mem_append_right _ member))
        (distinct.sublist (List.sublist_append_right _ _))
        (fun label member => apart label (List.mem_append_right _ member))
      rw [mirrorAll, unmirrorAll_kept decode _ _ kept, first, later]

end

omit [DecidableEq Name] in
theorem mirrorAll_reordered {left right : List (LabelTree Label)}
    (same : LabelTree.Reordered left right) :
    DirectoryTree.Reordered (mirrorAll name left) (mirrorAll name right) := by
  induction same with
  | nil =>
      rw [mirrorAll]
      exact .nil
  | @cons label children children' rest rest' below beside ihBelow ihBeside =>
      have sameEmpty := below.isEmpty
      rw [mirrorAll, mirrorAll]
      cases children with
      | nil =>
          cases children' with
          | nil =>
              rw [mirror_leaf]
              exact .file (name label) ihBeside
          | cons _ _ => cases sameEmpty
      | cons child later =>
          cases children' with
          | nil => cases sameEmpty
          | cons child' later' =>
              rw [mirror_branch, mirror_branch]
              exact .directory (name label) (.file (name label) ihBelow) ihBeside
  | swap first second rest =>
      simp only [mirrorAll]
      exact .swap _ _ _
  | trans left right ihLeft ihRight => exact .trans ihLeft ihRight

/-- Up to the order of siblings, two trees have the same layout only if they are the same. -/
theorem mirror_reordered_iff {left right : LabelTree Label}
    (inverseLeft : ∀ label ∈ left.labels, decode (name label) = label)
    (inverseRight : ∀ label ∈ right.labels, decode (name label) = label)
    (distinctLeft : left.labels.Nodup) (distinctRight : right.labels.Nodup) :
    DirectoryTree.Reordered [mirror name left] [mirror name right] ↔
      LabelTree.Reordered [left] [right] := by
  have single : ∀ tree : DirectoryTree Name,
      unmirrorAll decode none [tree] = [unmirror decode tree] := by
    intro tree
    rw [unmirrorAll_kept decode tree [] (fun both => Option.some_ne_none _ both.1), unmirrorAll]
  constructor
  · intro same
    have back := unmirrorAll_reordered decode same none
    rw [single, single, unmirror_mirror name decode left inverseLeft distinctLeft,
      unmirror_mirror name decode right inverseRight distinctRight] at back
    exact back
  · intro same
    have laidOut := mirrorAll_reordered name same
    simp only [mirrorAll] at laidOut
    exact laidOut

end Inverse

end Mirror

end LKP.TreeMirror
