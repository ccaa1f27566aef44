import LKP.Library.RedBlackTree

/-
What `proj2.c` has of the kernel around it: the module's globals, the allocator, the
list, hash, tree and radix-tree calls it makes, and `strsep`.

Calls whose documentation fixes their effect are defined here.  Those that leave
a choice to the kernel (the number parser, the hash, the rebalancing of the tree,
whether memory is there) are parameters; `Kernel.Documented` is what their
documentation promises.
-/

set_option autoImplicit false

namespace LKP.Proj2

open RedBlackTree

/-! ### Data -/

/-- `struct entry`, with the address `kmalloc` gave it; each entry is linked by one of its
nodes only. -/
structure Entry where
  address : Nat
  val : Int32
deriving DecidableEq

inductive Errno where
  | enomem
  | eexist
  | einval
  | erange
deriving DecidableEq

def Errno.code : Errno → Int
  | .enomem => -12
  | .eexist => -17
  | .einval => -22
  | .erange => -34

theorem Errno.code_ne_zero (error : Errno) : error.code ≠ 0 := by
  cases error with
  | _ => decide

/-- `DEFINE_HASHTABLE(myHTable, 3)` has 8 buckets. -/
abbrev Bucket := Fin (2 ^ 3)

abbrev RadixTree := Std.TreeMap UInt64 Entry compare

inductive MemoryEvent where
  | alloc (address : Nat)
  | free (address : Nat)
deriving DecidableEq

structure Module where
  intStr : Option (List Char)
  mylist : List Entry
  myHTable : Bucket → List Entry
  root : RbTree Entry
  radixTree : RadixTree
  requests : Nat
  ledger : List MemoryEvent
  log : List String

structure Kernel where
  /-- Whether a request for memory is granted. -/
  grants : Nat → Bool
  /-- `kstrtoint` with base 0. -/
  kstrtoint : List Char → Except Errno Int32
  hashMin : Int32 → Bucket
  rbInsertColor : RbTree Entry → Entry → RbTree Entry
  rbErase : RbTree Entry → Entry → RbTree Entry

structure Kernel.Documented (kernel : Kernel) : Prop where
  insertColor_inorder : ∀ tree insertion,
    (kernel.rbInsertColor tree insertion).inorder = tree.inorder
  insertColor_redBlack : ∀ new insertion, RedBlack (plug new .nil) →
    RedBlack (kernel.rbInsertColor (plug new (.node .red .nil insertion .nil)) insertion)
  erase_inorder : ∀ tree passed item rest, tree.inorder = passed ++ item :: rest →
    tree.inorder.Nodup → (kernel.rbErase tree item).inorder = passed ++ rest
  erase_redBlack : ∀ tree item, RedBlack tree → item ∈ tree.inorder →
    RedBlack (kernel.rbErase tree item)

/-! ### Memory and the log -/

def granted (m : Module) : Module :=
  { m with requests := m.requests + 1, ledger := m.ledger ++ [.alloc m.requests] }

/-- `kmalloc` and `kstrdup`: an address no request was given before, or `NULL`. -/
def kmalloc (kernel : Kernel) (m : Module) : Option Nat × Module :=
  if kernel.grants m.requests then (some m.requests, granted m)
  else (none, { m with requests := m.requests + 1 })

def kfree (address : Nat) (m : Module) : Module :=
  { m with ledger := m.ledger ++ [.free address] }

def printk (text : String) (m : Module) : Module := { m with log := m.log ++ [text] }

/-! ### Library calls -/

def listAddTail (entry : Entry) (m : Module) : Module := { m with mylist := m.mylist ++ [entry] }

def listDel (entry : Entry) (m : Module) : Module := { m with mylist := m.mylist.erase entry }

def hashAdd (kernel : Kernel) (entry : Entry) (key : Int32) (m : Module) : Module :=
  let bucket := kernel.hashMin key
  { m with myHTable := Function.update m.myHTable bucket (entry :: m.myHTable bucket) }

def hashDel (bucket : Bucket) (entry : Entry) (m : Module) : Module :=
  { m with myHTable := Function.update m.myHTable bucket ((m.myHTable bucket).erase entry) }

/-- `rb_link_node` makes the entry a red leaf; without the owner of the slot as its parent
the tree is broken. -/
def rbLinkNode (insertion : Entry) (parent : Option Entry) (new : Slot Entry) :
    Option (RbTree Entry) :=
  if parent = owner new then some (plug new (.node .red .nil insertion .nil)) else none

/-- `radix_tree_insert`, which asks for memory itself. -/
def radixTreeInsert (kernel : Kernel) (index : UInt64) (entry : Entry) (m : Module) :
    Int × Module :=
  if index ∈ m.radixTree then (Errno.eexist.code, m)
  else if kernel.grants m.requests then
    (0, { m with
      radixTree := m.radixTree.insert index entry
      requests := m.requests + 1 })
  else (Errno.enomem.code, { m with requests := m.requests + 1 })

def radixTreeDelete (index : UInt64) (m : Module) : Module :=
  { m with radixTree := m.radixTree.erase index }

/-- `strsep`: the next token, and what is left of the string. -/
def strsep (delimiter : Char) : Option (List Char) → Option (List Char) × Option (List Char)
  | none => (none, none)
  | some text =>
      match text.dropWhile (fun char => char != delimiter) with
      | [] => (some text, none)
      | _ :: rest => (some (text.takeWhile (fun char => char != delimiter)), some rest)

end LKP.Proj2
