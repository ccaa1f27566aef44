import LKP.Proj2.FourViews

/-
The calls that `rb_tree_remove` makes on the tree, and what each of them finds.

The loop erases a node, frees its entry and then asks `rb_next` for the node after it.
What `rb_next` gives for a node that is not linked is a parameter here.  If it goes by
the links that the node was erased with, the loop ends as `rbTreeRemove` does, and the
calls of `rb_next` are all that is wrong with it.
-/

set_option autoImplicit false

namespace LKP.Proj2

open RedBlackTree

/-! ### The loop with its calls -/

inductive TreeCall where
  | rbFirst
  | rbErase (node : Entry)
  | kfree (entry : Entry)
  | rbNext (node : Entry)
deriving DecidableEq

structure Made where
  call : TreeCall
  found : Module

/-- What `rb_next` gives for a node that is not linked, by the globals it was erased from and
those that the call finds: a node, `NULL` or, as `none`, an oops. -/
abbrev Unlinked := Module → Module → Entry → Option (Option Entry)

def rbNext (unlinked : Unlinked) (erasedFrom found : Module) (node : Entry) :
    Option (Option Entry) :=
  match linksOf found.root node with
  | some links => some (next found.root node links)
  | none => unlinked erasedFrom found node

def eraseNode (kernel : Kernel) (node : Entry) (m : Module) : Module :=
  { m with root := kernel.rbErase m.root node }

/-- The loop of `rb_tree_remove` at `iternode` for at most so many rounds: the calls it makes,
and the globals when it ends. -/
def removeLoop (kernel : Kernel) (unlinked : Unlinked) :
    Nat → Option Entry → Module → List Made × Option Module
  | _, none, m => ([], some m)
  | 0, some _, _ => ([], none)
  | rounds + 1, some iternode, m =>
      let erased := eraseNode kernel iternode m
      let freed := kfree iternode.address erased
      let later :=
        match rbNext unlinked m freed iternode with
        | none => ([], none)
        | some following => removeLoop kernel unlinked rounds following freed
      (⟨.rbErase iternode, m⟩ :: ⟨.kfree iternode, erased⟩ :: ⟨.rbNext iternode, freed⟩ :: later.1,
        later.2)

def removeCalls (kernel : Kernel) (unlinked : Unlinked) (rounds : Nat) (m : Module) :
    List Made × Option Module :=
  let looped := removeLoop kernel unlinked rounds m.root.first m
  (⟨.rbFirst, m⟩ :: looped.1, looped.2)

/-! ### What the library asks of the calls -/

def TreeCall.node : TreeCall → Option Entry
  | .rbErase node | .rbNext node => some node
  | .rbFirst | .kfree _ => none

def Made.OnLinked (made : Made) : Prop :=
  ∀ node, made.call.node = some node →
    node ∈ made.found.root.inorder ∧ .free node.address ∉ made.found.ledger

def erasedNodes (calls : List Made) : List Entry :=
  calls.filterMap (fun made =>
    match made.call with
    | .rbErase node => some node
    | _ => none)

def freedEntries (calls : List Made) : List Entry :=
  calls.filterMap (fun made =>
    match made.call with
    | .kfree entry => some entry
    | _ => none)

/-- Every call is on the tree or on a linked node, and the loop ends with every entry erased
and freed once and the tree empty. -/
structure RespectsApi (kernel : Kernel) (unlinked : Unlinked) (m : Module) : Prop where
  linked : ∀ rounds, ∀ made ∈ (removeCalls kernel unlinked rounds m).1, made.OnLinked
  ends : ∃ rounds calls after, removeCalls kernel unlinked rounds m = (calls, some after) ∧
    after.root = .nil ∧ (erasedNodes calls).Perm m.root.inorder ∧
    (freedEntries calls).Perm m.root.inorder

section Calls

variable {kernel : Kernel} {unlinked : Unlinked} {m : Module}

/-- In a tree with a first node, `rb_next` is called on it after its entry is freed. -/
theorem mem_removeCalls {node : Entry} (first : m.root.first = some node) :
    ⟨.rbNext node, kfree node.address (eraseNode kernel node m)⟩ ∈
      (removeCalls kernel unlinked 1 m).1 := by
  simp only [removeCalls, first, removeLoop, List.mem_cons, true_or, or_true]

theorem RespectsApi.root_nil (respects : RespectsApi kernel unlinked m) : m.root = .nil := by
  cases tree : m.root with
  | nil => rfl
  | node color left item right =>
      have first : m.root.first = some (left.first.getD item) := by
        rw [tree]
        rfl
      obtain ⟨_linked, live⟩ := respects.linked 1 _ (mem_removeCalls first) _ rfl
      exact absurd (List.mem_append_right _ List.mem_cons_self) live

theorem RespectsApi.of_empty (empty : m.root = .nil) : RespectsApi kernel unlinked m := by
  have none : m.root.first = none := by
    rw [empty]
    rfl
  have calls : ∀ rounds, removeCalls kernel unlinked rounds m = ([⟨.rbFirst, m⟩], some m) := by
    intro rounds
    simp only [removeCalls, none, removeLoop]
  constructor
  · intro rounds made member
    rw [calls] at member
    obtain rfl := List.mem_singleton.mp member
    intro node impossible
    cases impossible
  · refine ⟨0, _, m, calls 0, empty, ?_, ?_⟩
    · rw [empty]
      exact .nil
    · rw [empty]
      exact .nil

end Calls

/-- Whatever `rb_next` gives for a node that is not linked, the calls are those that the
library allows if and only if there is nothing to remove. -/
theorem rbTreeRemove_respects_iff (kernel : Kernel) (unlinked : Unlinked) (m : Module) :
    RespectsApi kernel unlinked m ↔ m.root = .nil :=
  ⟨RespectsApi.root_nil, RespectsApi.of_empty⟩

/-! ### With the links kept -/

/-- `rb_next` by the links that the node was erased with, as long as they stand in memory. -/
def linksKept : Unlinked := fun erasedFrom found node =>
  (linksOf erasedFrom.root node).map (next found.root node)

structure Live (entries : List Entry) (ledger : List MemoryEvent) : Prop where
  apart : (entries.map Entry.address).Nodup
  kept : ∀ entry ∈ entries, .free entry.address ∉ ledger

theorem Live.rest {entry : Entry} {rest : List Entry} {ledger : List MemoryEvent}
    (live : Live (entry :: rest) ledger) : Live rest (ledger ++ [.free entry.address]) := by
  obtain ⟨notAgain, apart⟩ := List.nodup_cons.mp live.apart
  refine ⟨apart, ?_⟩
  intro other member freed
  rcases List.mem_append.mp freed with earlier | new
  · exact live.kept other (List.mem_cons_of_mem _ member) earlier
  · have same : other.address = entry.address := MemoryEvent.free.inj (List.mem_singleton.mp new)
    exact notAgain (same ▸ List.mem_map_of_mem member)

/-- A call other than `rb_next` is right, and `rb_next` is called on a node that is neither
linked nor kept. -/
def Made.NextOnly (made : Made) : Prop :=
  match made.call with
  | .rbNext node => node ∉ made.found.root.inorder ∧ .free node.address ∈ made.found.ledger
  | _ => made.OnLinked

section Kept

variable {kernel : Kernel}

/-- A round with the links kept, at the first node of the tree. -/
theorem removeLoop_round (documented : kernel.Documented) {iternode : Entry} {rest : List Entry}
    {m : Module} (order : m.root.inorder = iternode :: rest) (nodup : (iternode :: rest).Nodup)
    (shape : RedBlack m.root) (rounds : Nat) :
    let freed := kfree iternode.address (eraseNode kernel iternode m)
    let later := removeLoop kernel linksKept rounds rest.head? freed
    removeLoop kernel linksKept (rounds + 1) (some iternode) m =
        (⟨.rbErase iternode, m⟩ :: ⟨.kfree iternode, eraseNode kernel iternode m⟩ ::
          ⟨.rbNext iternode, freed⟩ :: later.1, later.2) ∧
      rbRemoveLoop kernel (rounds + 1) (some iternode) m =
        rbRemoveLoop kernel rounds rest.head? freed ∧
      freed.root.inorder = rest := by
  have whole : m.root.inorder.Nodup := by rwa [order]
  have erased : (kernel.rbErase m.root iternode).inorder = rest :=
    documented.erase_inorder m.root [] iternode rest order whole
  obtain ⟨links, held, onward⟩ := next_stale shape order whole erased
  have gone : linksOf (kernel.rbErase m.root iternode) iternode = none := by
    rw [linksOf, find_absent (by rw [erased]; exact (List.nodup_cons.mp nodup).1)]
    rfl
  have following : rbNext linksKept m (kfree iternode.address (eraseNode kernel iternode m))
      iternode = some rest.head? := by
    simp only [rbNext, kfree, eraseNode, gone, linksKept, held, Option.map_some, onward]
  refine ⟨?_, ?_, erased⟩
  · simp only [removeLoop, following]
  · simp only [rbRemoveLoop, held, onward]
    rfl

theorem removeLoop_kept (documented : kernel.Documented) {nodes : List Entry} {m : Module}
    (order : m.root.inorder = nodes) (nodup : nodes.Nodup) (shape : RedBlack m.root)
    (live : Live nodes m.ledger) :
    ∃ calls, removeLoop kernel linksKept nodes.length nodes.head? m =
        (calls, rbRemoveLoop kernel nodes.length nodes.head? m) ∧
      erasedNodes calls = nodes ∧ freedEntries calls = nodes ∧
      ∀ made ∈ calls, made.NextOnly := by
  induction nodes generalizing m with
  | nil => exact ⟨[], rfl, rfl, rfl, fun made impossible => by cases impossible⟩
  | cons iternode rest ih =>
      have member : iternode ∈ m.root.inorder := by
        rw [order]
        exact List.mem_cons_self
      obtain ⟨round, ended, left⟩ :=
        removeLoop_round documented order nodup shape rest.length
      obtain ⟨later, looped, erases, frees, right⟩ := ih left (List.nodup_cons.mp nodup).2
        (documented.erase_redBlack m.root iternode shape member) live.rest
      rw [looped, ← ended] at round
      refine ⟨_, round, ?_, ?_, ?_⟩
      · exact congrArg (List.cons iternode) erases
      · exact congrArg (List.cons iternode) frees
      · intro made among
        rcases List.mem_cons.mp among with rfl | among
        · intro node here
          cases here
          exact ⟨member, live.kept iternode List.mem_cons_self⟩
        · rcases List.mem_cons.mp among with rfl | among
          · intro node impossible
            cases impossible
          · rcases List.mem_cons.mp among with rfl | among
            · refine ⟨?_, List.mem_append_right _ List.mem_cons_self⟩
              rw [left]
              exact (List.nodup_cons.mp nodup).1
            · exact right made among

/-- With the links kept, `rb_tree_remove` ends as its model without calls does, every entry
erased and freed once, and only the calls of `rb_next` are not on a linked node. -/
theorem removeCalls_kept (documented : kernel.Documented) {m : Module}
    (search : SearchTree m.root) (shape : RedBlack m.root)
    (live : Live m.root.inorder m.ledger) :
    ∃ calls, removeCalls kernel linksKept m.root.inorder.length m =
        (calls, rbTreeRemove kernel m) ∧
      erasedNodes calls = m.root.inorder ∧ freedEntries calls = m.root.inorder ∧
      ∀ made ∈ calls, made.NextOnly := by
  obtain ⟨calls, looped, erases, frees, right⟩ :=
    removeLoop_kept documented rfl search.nodup shape live
  rw [← RbTree.first_eq_head] at looped
  refine ⟨⟨.rbFirst, m⟩ :: calls, ?_, erases, frees, ?_⟩
  · rw [removeCalls, looped]
    rfl
  · intro made among
    rcases List.mem_cons.mp among with rfl | among
    · intro node impossible
      cases impossible
    · exact right made among

end Kept

def oneEntry : Module := { loaded "5" with root := .node .black .nil ⟨2, 5⟩ .nil }

theorem rbTreeRemove_respects_fails :
    ¬ ∀ (kernel : Kernel), kernel.Documented → ∀ (unlinked : Unlinked) (m : Module),
      SearchTree m.root → RedBlack m.root → RespectsApi kernel unlinked m := by
  intro general
  have search : SearchTree oneEntry.root := List.pairwise_singleton _ _
  have shape : RedBlack oneEntry.root := ⟨1, .black .nil .nil⟩
  have respects := general plainKernel plainKernel_documented linksKept oneEntry search shape
  have empty : RbTree.node .black .nil (⟨2, 5⟩ : Entry) .nil = .nil := respects.root_nil
  cases empty

end LKP.Proj2
