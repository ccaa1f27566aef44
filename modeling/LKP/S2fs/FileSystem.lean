import LKP.Library.TreeMirror

/-
`s2fs.c`: the tasks, the dentries, and the functions that mount and read.

A task is a node with its pid and the tasks on its `children` list.  The dentries of
a super block are in the order in which they were made, and a pointer to one is its
position.  Allocations may fail; `none` is an oops.  What is printed to the kernel
log is left out.
-/

set_option autoImplicit false

namespace LKP.S2fs

open TreeMirror

abbrev TaskStruct := LabelTree Int

/-! ### Numbers as text -/

def percentI (number : Int) : List Char :=
  if number < 0 then '-' :: Nat.toDigits 10 number.natAbs else Nat.toDigits 10 number.toNat

/-- `snprintf` into so many bytes, one of them for the NUL. -/
def snprintf (size : Nat) (text : List Char) : List Char := text.take (size - 1)

/-- `kstrtoint` with base 10: a sign, digits, and one newline after them. -/
def kstrtoint (text : List Char) : Option Int :=
  let unsigned := if text.head? = some '-' ∨ text.head? = some '+' then text.tail else text
  let digits := if unsigned.getLast? = some '\n' then unsigned.dropLast else unsigned
  if digits = [] ∨ digits.all Char.isDigit = false then none
  else
    let value : Int := Nat.ofDigitChars 10 digits 0
    let number := if text.head? = some '-' then -value else value
    if -2 ^ 31 ≤ number ∧ number < 2 ^ 31 then some number else none

/-! ### Dentries -/

def S_IFDIR : Nat := 0o040000

structure Inode where
  iMode : Nat
  /-- What `i_private` points to when the inode is made. -/
  iPrivate : Int
deriving DecidableEq

/-- Where `d_parent` points to, the name, and the inode. -/
structure Dentry where
  parent : Option Nat
  dName : List Char
  inode : Inode
deriving DecidableEq

def Dentry.kind (dentry : Dentry) : Kind :=
  if dentry.inode.iMode &&& 0o170000 = S_IFDIR then .directory else .file

/-- `d_iname` has the name if it is short enough to be kept in the dentry. -/
def Dentry.dIname (dentry : Dentry) : List Char :=
  if dentry.dName.length < 32 then dentry.dName else []

structure SuperBlock where
  dentries : List Dentry
  requests : Nat

/-- Which of these dentries, the first of them at `offset`, are in a directory. -/
def subdirsFrom (offset : Nat) (directory : Nat) : List Dentry → List Nat
  | [] => []
  | dentry :: rest =>
      if dentry.parent = some directory then offset :: subdirsFrom (offset + 1) directory rest
      else subdirsFrom (offset + 1) directory rest

def dSubdirs (dentries : List Dentry) (directory : Nat) : List Nat :=
  subdirsFrom 0 directory dentries

section Allocation

variable (grants : Nat → Bool)

def request (sb : SuperBlock) : Bool × SuperBlock :=
  (grants sb.requests, { sb with requests := sb.requests + 1 })

def s2fsMakeInode (sb : SuperBlock) (mode : Nat) (pid : Int) : Option Inode × SuperBlock :=
  match request grants sb with
  | (false, sb) => (none, sb)
  | (true, sb) => (some ⟨mode, pid⟩, sb)

def dAlloc (sb : SuperBlock) (parent : Nat) (qname : List Char) :
    Option (Inode → Dentry) × SuperBlock :=
  match request grants sb with
  | (false, sb) => (none, sb)
  | (true, sb) => (some (fun inode => ⟨some parent, qname, inode⟩), sb)

def dAdd (sb : SuperBlock) (dentry : Dentry) : Nat × SuperBlock :=
  (sb.dentries.length, { sb with dentries := sb.dentries ++ [dentry] })

def dMakeRoot (sb : SuperBlock) (root : Inode) : Option Nat × SuperBlock :=
  match request grants sb with
  | (false, sb) => (none, sb)
  | (true, sb) =>
      let (index, sb) := dAdd sb ⟨none, ['/'], root⟩
      (some index, sb)

/-! ### Mounting -/

/-- What `s2fs_create_dir` and `s2fs_create_file` do, with the mode they pass on.  `d_alloc`
reads the parent, so that a null parent is an oops. -/
def s2fsCreate (mode : Nat) (sb : SuperBlock) (parent : Option Nat) (name : List Char)
    (pid : Int) : Option (Option Nat × SuperBlock) :=
  match parent with
  | none => none
  | some parent =>
      match dAlloc grants sb parent name with
      | (none, sb) => some (none, sb)
      | (some dentry, sb) =>
          match s2fsMakeInode grants sb mode pid with
          | (none, sb) => some (none, sb)
          | (some inode, sb) =>
              let (index, sb) := dAdd sb (dentry inode)
              some (some index, sb)

def s2fsCreateDir (sb : SuperBlock) (parent : Option Nat) (dirName : List Char) (pid : Int) :
    Option (Option Nat × SuperBlock) :=
  s2fsCreate grants (S_IFDIR ||| 0o644) sb parent dirName pid

def s2fsCreateFile (sb : SuperBlock) (dir : Option Nat) (fileName : List Char) (pid : Int) :
    Option (Option Nat × SuperBlock) :=
  s2fsCreate grants 0x8000 sb dir fileName pid

mutual

def recursiveAdd : TaskStruct → SuperBlock → Option Nat → Option SuperBlock
  | .node pid children, sb, rootd =>
      let fileName := snprintf 10 (percentI pid)
      if children.isEmpty then
        match s2fsCreateFile grants sb rootd fileName pid with
        | none => none
        | some (_, sb) => some sb
      else
        match s2fsCreateDir grants sb rootd fileName pid with
        | none => none
        | some (subDentry, sb) =>
            match s2fsCreateFile grants sb subDentry fileName pid with
            | none => none
            | some (_, sb) => addChildren children sb subDentry

def addChildren : List TaskStruct → SuperBlock → Option Nat → Option SuperBlock
  | [], sb, _ => some sb
  | holderTask :: list, sb, subDentry =>
      match recursiveAdd holderTask sb subDentry with
      | none => none
      | some sb => addChildren list sb subDentry

end

/-- `s2fs_fill_super`, for the tree below `init_task`: its result and the super block. -/
def s2fsFillSuper (task : TaskStruct) : Option (Int × SuperBlock) :=
  match s2fsMakeInode grants ⟨[], 0⟩ (S_IFDIR ||| 0o755) task.label with
  | (none, sb) => some (-12, sb)
  | (some root, sb) =>
      match dMakeRoot grants sb root with
      | (none, sb) => some (-12, sb)
      | (some rootDentry, sb) =>
          match recursiveAdd grants task sb (some rootDentry) with
          | none => none
          | some sb => some (0, sb)

end Allocation

/-! ### Reading -/

def copyTaskInfo (info : Int × List UInt8) (count offset : Nat) (faulted : Bool) :
    Int × Nat × List UInt8 :=
  let (len, tmp) := info
  if len < offset then (0, offset, [])
  else
    let count := if (count : Int) > len - offset then (len - offset).toNat else count
    if faulted then (-14, offset, []) else (count, offset + count, (tmp.drop offset).take count)

/-- `s2fs_read_file`; if the name is no number, `pid_input` stays 0. -/
def s2fsReadFile (getTaskInfo : Int → Int × List UInt8) (dentry : Dentry) (count offset : Nat)
    (faulted : Bool) : Int × Nat × List UInt8 :=
  let pidInput := (kstrtoint dentry.dIname).getD 0
  copyTaskInfo (getTaskInfo pidInput) count offset faulted

end LKP.S2fs
