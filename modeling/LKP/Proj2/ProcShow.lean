import LKP.Proj2.Kernel

/-
The functions of `proj2.c`, from the four inserts to `proj2_proc_show`.

A function that changes the globals returns them.  `none` is an oops: a store
through a null pointer, a step onto a node that is not in the tree, a broken link.
What `seq_printf` writes is a string that the reader gets.
-/

set_option autoImplicit false

namespace LKP.Proj2

open RedBlackTree

/-! ### Storing a value -/

def storeValue (kernel : Kernel) (val : Int32) (m : Module) : Option (Int × Module) :=
  match kmalloc kernel m with
  | (none, _) => none
  | (some prj2List, m) => some (0, listAddTail ⟨prj2List, val⟩ m)

def storeHashValue (kernel : Kernel) (val : Int32) (m : Module) : Option (Int × Module) :=
  match kmalloc kernel m with
  | (none, _) => none
  | (some myHash, m) => some (0, hashAdd kernel ⟨myHash, val⟩ val m)

/-- The loop of `insert_rb_tree` at `*new`; `none` is the return of -1. -/
def rbDescend (insertion : Entry) :
    RbTree Entry → Option Entry → Slot Entry → Option (Option Entry × Slot Entry)
  | .nil, parent, new => some (parent, new)
  | .node color left this right, _, new =>
      if this.val > insertion.val then
        rbDescend insertion left (some this) (.left color this right :: new)
      else if this.val < insertion.val then
        rbDescend insertion right (some this) (.right color left this :: new)
      else none

def insertRbTree (kernel : Kernel) (treeRoot : RbTree Entry) (insertion : Entry) :
    Option (Int × RbTree Entry) :=
  match rbDescend insertion treeRoot none [] with
  | none => some (-1, treeRoot)
  | some (parent, new) =>
      match rbLinkNode insertion parent new with
      | none => none
      | some linked => some (0, kernel.rbInsertColor linked insertion)

def rbTreeInsert (kernel : Kernel) (value : Int32) (m : Module) : Option (Int × Module) :=
  match kmalloc kernel m with
  | (none, _) => none
  | (some target, m) =>
      match insertRbTree kernel m.root ⟨target, value⟩ with
      | none => none
      -- what `insert_rb_tree` returns is dropped
      | some (_, root) => some (0, { m with root := root })

def unsignedLong (key : Int32) : UInt64 := key.toInt64.toUInt64

def radixInsert (kernel : Kernel) (key : Int32) (m : Module) : Option (Int × Module) :=
  match kmalloc kernel m with
  | (none, _) => none
  | (some rnode, m) =>
      -- what `radix_tree_insert` returns is dropped
      some (0, (radixTreeInsert kernel (unsignedLong key) ⟨rnode, key⟩ m).2)

/-! ### Parsing -/

/-- The four stores of one value; each overwrites the result of the one before. -/
def storeAll (kernel : Kernel) (val : Int32) (m : Module) : Option (Int × Module) :=
  match storeValue kernel val m with
  | none => none
  | some (_, m) =>
      match storeHashValue kernel val m with
      | none => none
      | some (_, m) =>
          match rbTreeInsert kernel val m with
          | none => none
          | some (_, m) => radixInsert kernel val m

def unseparated (params : Option (List Char)) : Nat :=
  params.elim 0 (fun text => text.length + 1)

theorem strsep_shorter {delimiter : Char} {params rest : Option (List Char)}
    {token : List Char} (separated : strsep delimiter params = (some token, rest)) :
    unseparated rest < unseparated params := by
  cases params with
  | none => cases separated
  | some text =>
      simp only [strsep] at separated
      split at separated
      · cases separated
        exact Nat.succ_pos _
      · rename_i first following dropped
        cases separated
        have bound := (List.dropWhile_sublist (l := text)
          (fun char => char != delimiter)).length_le
        rw [dropped, List.length_cons] at bound
        simp only [unseparated, Option.elim]
        omega

/-- The loop of `parse_params`, with `params` and `err` as they are at its head. -/
def parseLoop (kernel : Kernel) (params : Option (List Char)) (err : Int) (m : Module) :
    Option (Int × Module) :=
  match _separated : strsep ',' params with
  | (none, _) => some (err, m)
  | (some p, rest) =>
      if p = [] then parseLoop kernel rest err m
      else
        match kernel.kstrtoint p with
        | .error error => some (error.code, m)
        | .ok val =>
            match storeAll kernel val m with
            | none => none
            | some (err, m) =>
                if err ≠ 0 then some (err, m) else parseLoop kernel rest err m
termination_by unseparated params
decreasing_by all_goals exact strsep_shorter _separated

def parseParams (kernel : Kernel) (m : Module) : Option (Int × Module) :=
  match m.intStr with
  | none => some (Errno.enomem.code, m)
  | some text =>
      match kmalloc kernel m with
      | (none, m) => some (Errno.enomem.code, m)
      | (some orig, m) =>
          match parseLoop kernel (some text) 0 m with
          | none => none
          | some (err, m) => some (err, kfree orig m)

/-! ### Cleaning up -/

def destroyLoop : List Entry → Module → Module
  | [], m => m
  | data :: next, m => destroyLoop next (kfree data.address (listDel data m))

def destroyLinkedListAndFree (m : Module) : Module := destroyLoop m.mylist m

def removeBucket (bucket : Bucket) : List Entry → Module → Module
  | [], m => m
  | pos :: next, m => removeBucket bucket next (kfree pos.address (hashDel bucket pos m))

/-- `remove_hash_table`; the `kfree(tmp)` at its end frees a null pointer. -/
def removeHashTable (m : Module) : Module :=
  (List.finRange (2 ^ 3)).foldl (fun m bucket => removeBucket bucket (m.myHTable bucket) m) m

/-- The loop of `rb_tree_remove` at `iternode`, in a tree of so many nodes.  The links by
which `rb_next` goes on are those that the node held when it was erased: neither
`rb_erase` nor `kfree` writes to it. -/
def rbRemoveLoop (kernel : Kernel) : Nat → Option Entry → Module → Option Module
  | _, none, m => some m
  | 0, some _, _ => none
  | nodes + 1, some iternode, m =>
      match linksOf m.root iternode with
      | none => none
      | some links =>
          let root := kernel.rbErase m.root iternode
          rbRemoveLoop kernel nodes (next root iternode links)
            (kfree iternode.address { m with root := root })

def rbTreeRemove (kernel : Kernel) (m : Module) : Option Module :=
  rbRemoveLoop kernel m.root.inorder.length m.root.first m

/-- `radix_remove` deletes the slots; the entries in them are not freed. -/
def radixRemove (m : Module) : Module :=
  m.radixTree.keys.foldl (fun m index => radixTreeDelete index m) m

def cleanup (kernel : Kernel) (m : Module) : Option Module :=
  let m := printk "\nCleaning up...\n" m
  let m := destroyLinkedListAndFree m
  let m := removeHashTable m
  match rbTreeRemove kernel m with
  | none => none
  | some m => some (radixRemove m)

/-! ### The read of `/proc/proj2` -/

def hashEntries (myHTable : Bucket → List Entry) : List Entry :=
  (List.finRange (2 ^ 3)).flatMap myHTable

def seqPrintEntries : List Entry → String
  | [] => ""
  | entry :: rest => toString entry.val.toInt ++ " " ++ seqPrintEntries rest

/-- The loop over the radix tree: the text, and whether every lookup found its entry. -/
def seqPrintRadix (tree : RadixTree) : List UInt64 → String × Bool
  | [] => ("", true)
  | index :: rest =>
      match tree[index]? with
      | none => ("", false)
      | some temp2 =>
          let (text, found) := seqPrintRadix tree rest
          (toString temp2.val.toInt ++ " " ++ text, found)

/-- What is printed before the slots of the radix tree, with the nodes that the loop over the
tree visits. -/
def seqPrintHead (m : Module) (nodes : List Entry) : String :=
  "Linked List = " ++ seqPrintEntries m.mylist ++ "\n" ++
    "Hash Table = " ++ seqPrintEntries (hashEntries m.myHTable) ++ "\n" ++
    "R-B Tree = " ++ seqPrintEntries nodes ++ "\n" ++
    "Radix Tree = "

def proj2ProcShow (kernel : Kernel) (m : Module) : Option (Int × String × Module) :=
  -- `temp2` is never freed
  let m := (kmalloc kernel m).2
  match m.intStr with
  | none => some (-1, "", printk "Missing 'int_str' parameter, exiting \n" m)
  | some _ =>
      match parseParams kernel m with
      | none => none
      | some (err, m) =>
          if err ≠ 0 then
            match cleanup kernel m with
            | none => none
            | some m => some (err, "", m)
          else
            match walk m.root m.root.inorder.length m.root.first with
            | none => none
            | some nodes =>
                let text := seqPrintHead m nodes
                match seqPrintRadix m.radixTree m.radixTree.keys with
                | (slots, false) => some (-1, text ++ slots, m)
                | (slots, true) =>
                    match cleanup kernel m with
                    | none => none
                    | some m => some (err, text ++ slots ++ "\n", m)

end LKP.Proj2
