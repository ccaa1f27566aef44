import Mathlib

/-
Red-black trees with nodes that know their parent.

A place in a tree is a slot, the frames from it up to the root, and what is below
it.  The links a node holds (its right child and its parent) are enough to step to
the next node in order, by descending or by climbing; the step is also defined
for links that were held before the tree changed.
-/

set_option autoImplicit false

namespace LKP.RedBlackTree

inductive Color where
  | red
  | black
deriving DecidableEq

inductive RbTree (Item : Type) where
  | nil
  | node (color : Color) (left : RbTree Item) (item : Item) (right : RbTree Item)

variable {Item : Type}

def RbTree.inorder : RbTree Item → List Item
  | .nil => []
  | .node _ left item right => left.inorder ++ item :: right.inorder

def RbTree.top : RbTree Item → Option Item
  | .nil => none
  | .node _ _ item _ => some item

def RbTree.first : RbTree Item → Option Item
  | .nil => none
  | .node _ left item _ => some (left.first.getD item)

theorem RbTree.first_eq_head (tree : RbTree Item) : tree.first = tree.inorder.head? := by
  induction tree with
  | nil => rfl
  | node color left item right ihLeft _ =>
      simp only [first, inorder, ihLeft]
      cases left.inorder with
      | nil => rfl
      | cons head tail => rfl

/-! ### Slots -/

/-- A node passed on the way down, with the side that was not taken. -/
inductive Frame (Item : Type) where
  | left (color : Color) (item : Item) (right : RbTree Item)
  | right (color : Color) (left : RbTree Item) (item : Item)

/-- The frames from a place up to the root. -/
abbrev Slot (Item : Type) := List (Frame Item)

def Frame.item : Frame Item → Item
  | .left _ item _ => item
  | .right _ _ item => item

def Frame.fill : Frame Item → RbTree Item → RbTree Item
  | .left color item other, tree => .node color tree item other
  | .right color other item, tree => .node color other item tree

def plug : Slot Item → RbTree Item → RbTree Item
  | [], tree => tree
  | frame :: above, tree => plug above (frame.fill tree)

/-- The node whose child the slot is. -/
def owner (slot : Slot Item) : Option Item := slot.head?.map Frame.item

def before : Slot Item → List Item
  | [] => []
  | .left _ _ _ :: above => before above
  | .right _ left item :: above => before above ++ (left.inorder ++ [item])

def after : Slot Item → List Item
  | [] => []
  | .left _ item right :: above => item :: right.inorder ++ after above
  | .right _ _ _ :: above => after above

theorem plug_inorder (slot : Slot Item) (tree : RbTree Item) :
    (plug slot tree).inorder = before slot ++ tree.inorder ++ after slot := by
  induction slot generalizing tree with
  | nil => simp only [plug, before, after, List.nil_append, List.append_nil]
  | cons frame above ih =>
      cases frame with
      | left color item right =>
          simp only [plug, before, after, ih, Frame.fill, RbTree.inorder, List.append_assoc,
            List.cons_append]
      | right color left item =>
          simp only [plug, before, after, ih, Frame.fill, RbTree.inorder, List.append_assoc,
            List.cons_append, List.nil_append]

theorem plug_append (inner outer : Slot Item) (tree : RbTree Item) :
    plug (inner ++ outer) tree = plug outer (plug inner tree) := by
  induction inner generalizing tree with
  | nil => rfl
  | cons frame above ih => exact ih (frame.fill tree)

theorem exists_place {tree : RbTree Item} {item : Item} (member : item ∈ tree.inorder) :
    ∃ slot color left right, tree = plug slot (.node color left item right) := by
  induction tree with
  | nil => exact absurd member List.not_mem_nil
  | node color left here right ihLeft ihRight =>
      rcases List.mem_append.mp member with inLeft | others
      · obtain ⟨slot, inner, below, beside, rfl⟩ := ihLeft inLeft
        refine ⟨slot ++ [.left color here right], inner, below, beside, ?_⟩
        rw [plug_append]
        rfl
      · rcases List.mem_cons.mp others with rfl | inRight
        · exact ⟨[], color, left, right, rfl⟩
        · obtain ⟨slot, inner, below, beside, rfl⟩ := ihRight inRight
          refine ⟨slot ++ [.right color left here], inner, below, beside, ?_⟩
          rw [plug_append]
          rfl

/-! ### Links and the step to the next node -/

structure Links (Item : Type) where
  right : Option Item
  parent : Option Item

structure Place (Item : Type) where
  slot : Slot Item
  left : RbTree Item
  right : RbTree Item

/-- Climb while the way up comes from a right child, then take the parent. -/
def climb : Slot Item → Option Item
  | [] => none
  | .left _ item _ :: _ => some item
  | .right _ _ _ :: above => climb above

theorem climb_eq_head (slot : Slot Item) : climb slot = (after slot).head? := by
  induction slot with
  | nil => rfl
  | cons frame above ih =>
      cases frame with
      | left color item other => rfl
      | right color other item => exact ih

theorem RbTree.top_member {tree : RbTree Item} {item : Item} (top : tree.top = some item) :
    item ∈ tree.inorder := by
  cases tree with
  | nil => cases top
  | node color left here right =>
      cases top
      exact List.mem_append_right _ List.mem_cons_self

section Stepping

variable [DecidableEq Item]

def find (item : Item) : RbTree Item → Slot Item → Option (Place Item)
  | .nil, _ => none
  | .node color left here right, slot =>
      if here = item then some ⟨slot, left, right⟩
      else (find item left (.left color here right :: slot)).or
        (find item right (.right color left here :: slot))

theorem find_absent {item : Item} {tree : RbTree Item} (absent : item ∉ tree.inorder)
    (slot : Slot Item) : find item tree slot = none := by
  induction tree generalizing slot with
  | nil => rfl
  | node color left here right ihLeft ihRight =>
      simp only [RbTree.inorder, List.mem_append, List.mem_cons, not_or] at absent
      obtain ⟨notLeft, notHere, notRight⟩ := absent
      simp only [find, if_neg (Ne.symm notHere), ihLeft notLeft, ihRight notRight, Option.or]

/-- When no item is there twice, looking for one finds the place it is at. -/
theorem find_plug (slot above : Slot Item) (color : Color) (left right : RbTree Item)
    (item : Item) (nodup : (plug slot (.node color left item right)).inorder.Nodup) :
    find item (plug slot (.node color left item right)) above =
      some ⟨slot ++ above, left, right⟩ := by
  induction slot using List.reverseRecOn generalizing above with
  | nil => simp only [plug, find, if_true, List.nil_append]
  | append_singleton inner frame ih =>
      rw [plug_append] at nodup ⊢
      have member : item ∈ (plug inner (.node color left item right)).inorder := by
        simp only [plug_inorder, RbTree.inorder, List.mem_append, List.mem_cons, true_or, or_true]
      cases frame with
      | left outer here beside =>
          simp only [plug, Frame.fill, RbTree.inorder] at nodup ⊢
          have parts := List.nodup_append'.mp nodup
          have different : here ≠ item := by
            intro same
            subst same
            exact parts.2.2 member List.mem_cons_self
          simp only [find, if_neg different, ih _ parts.1, List.append_assoc,
            List.cons_append, List.nil_append, Option.some_or]
      | right outer beside here =>
          simp only [plug, Frame.fill, RbTree.inorder] at nodup ⊢
          have parts := List.nodup_append'.mp nodup
          have tail := List.nodup_cons.mp parts.2.1
          have different : here ≠ item := by
            intro same
            subst same
            exact tail.1 member
          have elsewhere : item ∉ beside.inorder :=
            fun inBeside => parts.2.2 inBeside (List.mem_cons_of_mem here member)
          simp only [find, if_neg different, find_absent elsewhere, ih _ tail.2, Option.none_or,
            List.append_assoc, List.cons_append, List.nil_append]

def linksOf (tree : RbTree Item) (item : Item) : Option (Links Item) :=
  (find item tree []).map (fun place => ⟨place.right.top, owner place.slot⟩)

def rightOf (tree : RbTree Item) (item : Item) : Option Item :=
  (find item tree []).bind (fun place => place.right.top)

def leftmostFrom (tree : RbTree Item) (item : Item) : Item :=
  ((find item tree []).bind (fun place => place.left.first)).getD item

/-- The node a step goes to from `item` by links it holds. -/
def next (tree : RbTree Item) (item : Item) (links : Links Item) : Option Item :=
  match links.right with
  | some child => some (leftmostFrom tree child)
  | none =>
      match links.parent with
      | none => none
      | some parent =>
          if rightOf tree parent = some item then
            (find parent tree []).bind (fun place => climb place.slot)
          else some parent

def walk (tree : RbTree Item) : Nat → Option Item → Option (List Item)
  | _, none => some []
  | 0, some _ => none
  | steps + 1, some item =>
      match linksOf tree item with
      | none => none
      | some links => (walk tree steps (next tree item links)).map (fun visited => item :: visited)

theorem rightOf_plug {slot : Slot Item} {color : Color} {left right : RbTree Item} {item : Item}
    (nodup : (plug slot (.node color left item right)).inorder.Nodup) :
    rightOf (plug slot (.node color left item right)) item = right.top := by
  rw [rightOf, find_plug slot [] color left right item nodup, Option.bind_some]

theorem rightOf_member {tree : RbTree Item} {parent item : Item} (nodup : tree.inorder.Nodup)
    (linked : rightOf tree parent = some item) : item ∈ tree.inorder := by
  by_cases member : parent ∈ tree.inorder
  · obtain ⟨slot, color, left, right, rfl⟩ := exists_place member
    rw [rightOf_plug nodup] at linked
    have below := RbTree.top_member linked
    simp only [plug_inorder, RbTree.inorder, List.mem_append, List.mem_cons, below, true_or,
      or_true]
  · rw [rightOf, find_absent member] at linked
    exact absurd linked (by simp)

/-- A child that is first in order below its parent's right link is where the links lead. -/
theorem leftmostFrom_top {tree : RbTree Item} {slot : Slot Item} {color : Color}
    {left right : RbTree Item} {item : Item}
    (shape : tree = plug slot (.node color left item right)) (nodup : tree.inorder.Nodup) :
    leftmostFrom tree item = (left.inorder ++ item :: right.inorder).head?.getD item := by
  subst shape
  rw [leftmostFrom, find_plug slot [] color left right item nodup, Option.bind_some,
    RbTree.first_eq_head]
  cases left.inorder with
  | nil => rfl
  | cons head tail => rfl

/-- From a node in the tree the step by its own links goes to the next item in order. -/
theorem next_linked {tree : RbTree Item} {slot : Slot Item} {color : Color}
    {left right : RbTree Item} {item : Item}
    (shape : tree = plug slot (.node color left item right)) (nodup : tree.inorder.Nodup) :
    ∃ links, linksOf tree item = some links ∧
      next tree item links = (right.inorder ++ after slot).head? := by
  subst shape
  have found := find_plug slot [] color left right item nodup
  rw [List.append_nil] at found
  refine ⟨⟨right.top, owner slot⟩, by rw [linksOf, found, Option.map_some], ?_⟩
  cases right with
  | node inner below child beside =>
      have whole : plug slot (.node color left item (.node inner below child beside)) =
          plug (.right color left item :: slot) (.node inner below child beside) := rfl
      simp only [next, RbTree.top, leftmostFrom_top whole nodup, RbTree.inorder]
      cases below.inorder with
      | nil => rfl
      | cons head tail => rfl
  | nil =>
      cases slot with
      | nil => rfl
      | cons frame above =>
          cases frame with
          | left outer parent other =>
              have notRight : rightOf (plug (.left outer parent other :: above)
                  (.node color left item .nil)) parent ≠ some item := by
                intro linked
                have child : rightOf (plug above (.node outer (.node color left item .nil)
                    parent other)) parent = other.top := rightOf_plug nodup
                have top : other.top = some item := child.symm.trans linked
                have beyond : item ∈ after (.left outer parent other :: above) :=
                  List.mem_append_left _ (List.mem_cons_of_mem parent (RbTree.top_member top))
                rw [plug_inorder] at nodup
                exact (List.nodup_append'.mp nodup).2.2
                  (List.mem_append_right _ (List.mem_append_right _ List.mem_cons_self)) beyond
              simp only [next, RbTree.top, owner, List.head?_cons, Option.map_some, Frame.item,
                if_neg notRight]
              rfl
          | right outer other parent =>
              have isRight : rightOf (plug (.right outer other parent :: above)
                  (.node color left item .nil)) parent = some item := rightOf_plug nodup
              have position := find_plug above [] outer other (.node color left item .nil)
                parent nodup
              rw [List.append_nil] at position
              change next (plug above (.node outer other parent (.node color left item .nil)))
                item ⟨none, some parent⟩ = _
              change rightOf (plug above (.node outer other parent
                (.node color left item .nil))) parent = some item at isRight
              simp only [next, if_pos isRight, position, Option.bind_some]
              exact climb_eq_head above

/-- The walk from the first of the remaining items visits all of them. -/
theorem walk_rest {tree : RbTree Item} (nodup : tree.inorder.Nodup) (passed rest : List Item)
    (split : tree.inorder = passed ++ rest) : walk tree rest.length rest.head? = some rest := by
  induction rest generalizing passed with
  | nil => rfl
  | cons item rest ih =>
      have member : item ∈ tree.inorder := by
        rw [split]
        exact List.mem_append_right _ List.mem_cons_self
      obtain ⟨slot, color, left, right, shape⟩ := exists_place member
      obtain ⟨links, held, stepped⟩ := next_linked shape nodup
      have order : passed ++ item :: rest =
          (before slot ++ left.inorder) ++ item :: (right.inorder ++ after slot) := by
        rw [← split, shape, plug_inorder]
        simp only [RbTree.inorder, List.append_assoc, List.cons_append]
      have following : right.inorder ++ after slot = rest := by
        rw [split] at nodup
        have onceLeft : item ∉ passed := fun early =>
          (List.nodup_append'.mp nodup).2.2 early List.mem_cons_self
        have onceRight : item ∉ rest := (List.nodup_cons.mp (List.nodup_append'.mp nodup).2.1).1
        exact ((List.append_cons_inj_of_notMem onceLeft onceRight).mp order).2.2.symm
      rw [following] at stepped
      simp only [List.length_cons, List.head?_cons, walk, held, stepped,
        ih (passed ++ [item]) (by rw [split, List.append_assoc]; rfl), Option.map_some]

theorem walk_inorder {tree : RbTree Item} (nodup : tree.inorder.Nodup) :
    walk tree tree.inorder.length tree.first = some tree.inorder := by
  rw [tree.first_eq_head]
  exact walk_rest nodup [] tree.inorder rfl

end Stepping

/-! ### Red-black shape -/

/-- A red-black tree with a root of this colour and this black height; the empty tree is
black. -/
inductive Balanced : RbTree Item → Color → Nat → Prop
  | nil : Balanced .nil .black 0
  | red {left right : RbTree Item} {item : Item} {height : Nat}
      (onLeft : Balanced left .black height) (onRight : Balanced right .black height) :
      Balanced (.node .red left item right) .red height
  | black {left right : RbTree Item} {item : Item} {leftColor rightColor : Color} {height : Nat}
      (onLeft : Balanced left leftColor height) (onRight : Balanced right rightColor height) :
      Balanced (.node .black left item right) .black (height + 1)

def RedBlack (tree : RbTree Item) : Prop := ∃ height, Balanced tree .black height

theorem redBlack_nil : RedBlack (.nil : RbTree Item) := ⟨0, .nil⟩

theorem Balanced.low {tree : RbTree Item} {color : Color}
    (balanced : Balanced tree color 0) :
    tree = .nil ∨ ∃ item, tree = .node .red .nil item .nil := by
  cases balanced with
  | nil => exact .inl rfl
  | red onLeft onRight =>
      cases onLeft with
      | nil =>
          cases onRight with
          | nil => exact .inr ⟨_, rfl⟩

/-- A node without a left child has at most a leaf on its right. -/
theorem Balanced.onlyChild {color root : Color} {item : Item} {right : RbTree Item}
    {height : Nat} (balanced : Balanced (.node color .nil item right) root height) :
    right = .nil ∨ ∃ child, right = .node .red .nil child .nil := by
  cases balanced with
  | red onLeft onRight =>
      cases onLeft with
      | nil => exact onRight.low
  | black onLeft onRight =>
      cases onLeft with
      | nil => exact onRight.low

theorem Balanced.inside {slot : Slot Item} {tree : RbTree Item} {color : Color} {height : Nat}
    (balanced : Balanced (plug slot tree) color height) :
    ∃ inner innerHeight, Balanced tree inner innerHeight := by
  induction slot generalizing tree with
  | nil => exact ⟨color, height, balanced⟩
  | cons frame above ih =>
      obtain ⟨inner, innerHeight, filled⟩ := ih balanced
      cases frame with
      | left outer item other =>
          cases filled with
          | red onLeft onRight => exact ⟨_, _, onLeft⟩
          | black onLeft onRight => exact ⟨_, _, onLeft⟩
      | right outer other item =>
          cases filled with
          | red onLeft onRight => exact ⟨_, _, onRight⟩
          | black onLeft onRight => exact ⟨_, _, onRight⟩

/-- Where the first item is: nothing is to its left and all else is to its right. -/
theorem first_place {slot : Slot Item} {color : Color} {left right : RbTree Item} {item : Item}
    {rest : List Item}
    (order : (plug slot (.node color left item right)).inorder = item :: rest)
    (nodup : (item :: rest).Nodup) :
    before slot = [] ∧ left = .nil ∧ right.inorder ++ after slot = rest := by
  have split : (before slot ++ left.inorder) ++ item :: (right.inorder ++ after slot) =
      [] ++ item :: rest := by
    rw [List.nil_append, ← order, plug_inorder]
    simp only [RbTree.inorder, List.append_assoc, List.cons_append]
  have once : ([] ++ item :: rest).Nodup := nodup
  rw [← split] at once
  obtain ⟨apart, onceBehind⟩ := List.nodup_middle.mp once |> List.nodup_cons.mp
  have elsewhere := List.mem_append.not.mp apart
  obtain ⟨front, _, behind⟩ := (List.append_cons_inj_of_notMem
    (fun early => elsewhere (.inl early)) (fun late => elsewhere (.inr late))).mp split
  obtain ⟨above, below⟩ := List.append_eq_nil_iff.mp front
  have leftNil : left = .nil := by
    cases left with
    | nil => rfl
    | node inner far here near => exact absurd below (by simp [RbTree.inorder])
  exact ⟨above, leftNil, behind⟩

section Stale

variable [DecidableEq Item]

/-- The links that the first node of a red-black tree held lead to the first node of what
is left of the tree, whatever was done to the tree meanwhile. -/
theorem next_stale {tree remaining : RbTree Item} {item : Item} {rest : List Item}
    (shape : RedBlack tree) (order : tree.inorder = item :: rest)
    (nodup : tree.inorder.Nodup) (erased : remaining.inorder = rest) :
    ∃ links, linksOf tree item = some links ∧ next remaining item links = rest.head? := by
  have member : item ∈ tree.inorder := by
    rw [order]
    exact List.mem_cons_self
  obtain ⟨slot, color, left, right, rfl⟩ := exists_place member
  have held := find_plug slot [] color left right item nodup
  rw [List.append_nil] at held
  refine ⟨⟨right.top, owner slot⟩, by rw [linksOf, held, Option.map_some], ?_⟩
  rw [order] at nodup
  obtain ⟨gone, restNodup⟩ := List.nodup_cons.mp nodup
  obtain ⟨front, rfl, behind⟩ := first_place order nodup
  obtain ⟨height, balanced⟩ := shape
  obtain ⟨inner, innerHeight, here⟩ := balanced.inside
  rcases here.onlyChild with rfl | ⟨child, rfl⟩
  · cases slot with
    | nil =>
        subst behind
        rfl
    | cons frame above =>
        cases frame with
        | left outer parent other =>
            have notRight : rightOf remaining parent ≠ some item := by
              intro linked
              have back := rightOf_member (by rwa [erased]) linked
              rw [erased] at back
              exact gone back
            subst behind
            simp only [next, RbTree.top, owner, List.head?_cons, Option.map_some, Frame.item,
              if_neg notRight]
            rfl
        | right outer other parent =>
            exact absurd front (by simp [before])
  · have first : remaining.inorder = child :: after slot := erased.trans behind.symm
    have remainingNodup : remaining.inorder.Nodup := by rwa [erased]
    have childMember : child ∈ remaining.inorder := by
      rw [first]
      exact List.mem_cons_self
    obtain ⟨place, outer, far, near, rfl⟩ := exists_place childMember
    have childNodup : (child :: after slot).Nodup := by rwa [← first]
    obtain ⟨_, rfl, _⟩ := first_place first childNodup
    rw [← behind]
    simp only [next, RbTree.top, leftmostFrom_top rfl remainingNodup]
    rfl

end Stale

/-! ### A red-black tree of any list -/

/-- A tree of a list with this black height, red only at the bottom. -/
def build : Nat → List Item → RbTree Item
  | 0, [] => .nil
  | 0, item :: _ => .node .red .nil item .nil
  | height + 1, items =>
      let middle := (items.length - 1) / 2
      match items.drop middle with
      | [] => .nil
      | item :: right => .node .black (build height (items.take middle)) item (build height right)

theorem build_spec {height : Nat} {items : List Item} (enough : 2 ^ height ≤ items.length + 1)
    (fits : items.length < 2 ^ (height + 1)) :
    (build height items).inorder = items ∧
      ∃ color, Balanced (build height items) color height ∧ (0 < height → color = .black) := by
  induction height generalizing items with
  | zero =>
      cases items with
      | nil => exact ⟨rfl, .black, .nil, fun _ => rfl⟩
      | cons item rest =>
          have alone : rest = [] := by
            apply List.length_eq_zero_iff.mp
            rw [List.length_cons] at fits
            omega
          subst alone
          exact ⟨rfl, .red, .red .nil .nil, fun positive => absurd positive (Nat.lt_irrefl 0)⟩
  | succ height ih =>
      have powers : 2 ^ (height + 1) = 2 * 2 ^ height := by rw [Nat.pow_succ, Nat.mul_comm]
      have powers' : 2 ^ (height + 1 + 1) = 2 * 2 ^ (height + 1) := by
        rw [Nat.pow_succ, Nat.mul_comm]
      have positive : 0 < 2 ^ height := Nat.two_pow_pos height
      simp only [build]
      cases dropped : items.drop ((items.length - 1) / 2) with
      | nil =>
          have short := List.drop_eq_nil_iff.mp dropped
          omega
      | cons item right =>
          have leftLength : (items.take ((items.length - 1) / 2)).length =
              (items.length - 1) / 2 := by
            rw [List.length_take]
            omega
          have rightLength : right.length + 1 = items.length - (items.length - 1) / 2 := by
            rw [← List.length_drop, dropped, List.length_cons]
          obtain ⟨leftOrder, leftColor, onLeft, _⟩ :=
            @ih (items.take ((items.length - 1) / 2)) (by omega) (by omega)
          obtain ⟨rightOrder, rightColor, onRight, _⟩ := @ih right (by omega) (by omega)
          refine ⟨?_, .black, .black onLeft onRight, fun _ => rfl⟩
          rw [RbTree.inorder, leftOrder, rightOrder, ← dropped, List.take_append_drop]

def ofList (items : List Item) : RbTree Item :=
  if items = [] then .nil else build (max 1 items.length.log2) items

theorem ofList_bounds {items : List Item} (nonempty : items ≠ []) :
    2 ^ max 1 items.length.log2 ≤ items.length + 1 ∧
      items.length < 2 ^ (max 1 items.length.log2 + 1) := by
  have positive : items.length ≠ 0 := fun zero => nonempty (List.length_eq_zero_iff.mp zero)
  have lower := Nat.log2_self_le positive
  have upper : items.length < 2 ^ (items.length.log2 + 1) := Nat.lt_log2_self
  rcases Nat.le_total 1 items.length.log2 with large | small
  · rw [Nat.max_eq_right large]
    exact ⟨by omega, upper⟩
  · rw [Nat.max_eq_left small]
    have most : 2 ^ (items.length.log2 + 1) ≤ 2 ^ 2 :=
      Nat.pow_le_pow_right Nat.two_pos (by omega)
    omega

theorem ofList_inorder (items : List Item) : (ofList items).inorder = items := by
  unfold ofList
  split
  · rename_i empty
    rw [empty]
    rfl
  · rename_i nonempty
    obtain ⟨enough, fits⟩ := ofList_bounds nonempty
    exact (build_spec enough fits).1

theorem ofList_redBlack (items : List Item) : RedBlack (ofList items) := by
  unfold ofList
  split
  · exact redBlack_nil
  · rename_i nonempty
    obtain ⟨enough, fits⟩ := ofList_bounds nonempty
    obtain ⟨_, color, balanced, black⟩ := build_spec enough fits
    have rooted : color = .black := black (by omega)
    subst rooted
    exact ⟨_, balanced⟩

end LKP.RedBlackTree
