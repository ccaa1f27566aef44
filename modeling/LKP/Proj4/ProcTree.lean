import LKP.Library.DepthListing
import LKP.S2fs.PrintedNumbers

/-
`proj4.c`: the process tree as `recursive_search` prints it.

The text is a list of lines, one for each task, and a line tells how deep its task
is, what it is called and what its pid is: the first dash ends the indentation, the last
bracket begins the pid.  Root and children are indented alike, but the root comes
first.
-/

set_option autoImplicit false

namespace LKP.Proj4

open TreeMirror S2fs

/-! ### Printing -/

/-- What `recursive_search` prints of a `struct task_struct`: `comm` up to its NUL. -/
@[ext] structure Task where
  comm : List UInt8
  pid : Int32
deriving DecidableEq

abbrev TaskStruct := LabelTree Task

def indentLoop (i spaceNum : Nat) : List UInt8 :=
  if i < spaceNum then ascii "  ".toList ++ indentLoop (i + 1) spaceNum else []
termination_by spaceNum - i

mutual

def recursiveSearch : TaskStruct → Nat → List UInt8
  | .node task children, space =>
      indentLoop 1 space ++
        (ascii "-".toList ++ task.comm ++ ascii " [".toList ++ percentD task.pid.toInt ++
          ascii "]\n".toList) ++
        searchChildren children (space + 1)

def searchChildren : List TaskStruct → Nat → List UInt8
  | [], _ => []
  | holderTask :: list, spaceNum =>
      recursiveSearch holderTask spaceNum ++ searchChildren list spaceNum

end

def proj4ProcShow (initTask : TaskStruct) : Int × List UInt8 :=
  (0, ascii "Loading proctree Module...\n".toList ++ recursiveSearch initTask 0)

/-! ### Lines -/

def line (entry : Nat × Task) : List UInt8 :=
  List.replicate (2 * (entry.1 - 1)) 32 ++
    45 :: (entry.2.comm ++ 32 :: 91 :: (percentD entry.2.pid.toInt ++ [93]))

theorem indentLoop_eq (i spaceNum : Nat) :
    indentLoop i spaceNum = List.replicate (2 * (spaceNum - i)) 32 := by
  induction left : spaceNum - i generalizing i with
  | zero =>
      rw [indentLoop, if_neg (by omega)]
      rfl
  | succ rest ih =>
      rw [indentLoop, if_pos (by omega), ih (i + 1) (by omega)]
      rfl

mutual

/-- The tasks are printed in the order of their listing, each on its line. -/
theorem recursiveSearch_eq : ∀ (tree : TaskStruct) (space : Nat),
    recursiveSearch tree space = (tree.listed space).flatMap (fun entry => line entry ++ [10])
  | .node task children, space => by
      have printed : indentLoop 1 space ++
          (ascii "-".toList ++ task.comm ++ ascii " [".toList ++ percentD task.pid.toInt ++
            ascii "]\n".toList) = line (space, task) ++ [10] := by
        have dash : ascii "-".toList = [45] := by decide
        have opening : ascii " [".toList = [32, 91] := by decide
        have closing : ascii "]\n".toList = [93, 10] := by decide
        rw [indentLoop_eq, dash, opening, closing, line]
        simp only [List.append_assoc, List.cons_append, List.nil_append]
      rw [recursiveSearch, LabelTree.listed, List.flatMap_cons, printed,
        searchChildren_eq children (space + 1)]

theorem searchChildren_eq : ∀ (forest : List TaskStruct) (space : Nat),
    searchChildren forest space = (listedAll space forest).flatMap (fun entry => line entry ++ [10])
  | [], space => by
      rw [searchChildren, listedAll_nil]
      rfl
  | holderTask :: list, space => by
      rw [searchChildren, listedAll_cons, List.flatMap_append,
        recursiveSearch_eq holderTask space, searchChildren_eq list space]

end

def NamesOnOneLine (tree : TaskStruct) : Prop := ∀ task ∈ tree.labels, 10 ∉ task.comm

theorem line_newlineFree {entry : Nat × Task} (oneLine : 10 ∉ entry.2.comm) :
    10 ∉ line entry := by
  intro member
  rcases List.mem_append.mp member with indentation | rest
  · exact absurd (List.eq_of_mem_replicate indentation) (by decide)
  · rcases List.mem_cons.mp rest with dash | rest
    · exact absurd dash (by decide)
    · rcases List.mem_append.mp rest with name | rest
      · exact oneLine name
      · rcases List.mem_cons.mp rest with space | rest
        · exact absurd space (by decide)
        · rcases List.mem_cons.mp rest with bracket | rest
          · exact absurd bracket (by decide)
          · rcases List.mem_append.mp rest with number | bracket
            · exact not_mem_percentD _ (by decide) (.inl (by decide)) number
            · exact absurd (List.mem_singleton.mp bracket) (by decide)

/-- Lines can be told apart by the newlines between them. -/
theorem splitOn_lines (entries : List (Nat × Task))
    (oneLine : ∀ entry ∈ entries, 10 ∉ entry.2.comm) :
    (entries.flatMap (fun entry => line entry ++ [10])).splitOn 10 = entries.map line ++ [[]] := by
  induction entries with
  | nil => exact List.splitOn_eq_singleton List.not_mem_nil
  | cons entry rest ih =>
      have newlineFree := line_newlineFree (oneLine entry List.mem_cons_self)
      have others := ih (fun other member => oneLine other (List.mem_cons_of_mem _ member))
      rw [List.flatMap_cons, List.append_assoc, List.singleton_append,
        List.splitOn_append_cons_self_of_not_mem newlineFree, others, List.map_cons,
        List.cons_append]

/-! ### The tree back -/

/-- What stands before the first of these bytes, and behind it. -/
theorem split_first {byte : UInt8} {before other after behind : List UInt8}
    (free : byte ∉ before) (otherFree : byte ∉ other)
    (same : before ++ byte :: after = other ++ byte :: behind) :
    before = other ∧ after = behind := by
  induction before generalizing other with
  | nil =>
      cases other with
      | nil => exact ⟨rfl, (List.cons.inj same).2⟩
      | cons head tail =>
          have first : byte = head := (List.cons.inj same).1
          exact absurd (first ▸ List.mem_cons_self) otherFree
  | cons head tail ih =>
      cases other with
      | nil =>
          have first : head = byte := (List.cons.inj same).1
          exact absurd (first ▸ List.mem_cons_self) free
      | cons head' tail' =>
          obtain ⟨heads, tails⟩ := List.cons.inj same
          obtain ⟨befores, afters⟩ := ih (fun member => free (List.mem_cons_of_mem _ member))
            (fun member => otherFree (List.mem_cons_of_mem _ member)) tails
          exact ⟨by rw [heads, befores], afters⟩

theorem line_task {name other : List UInt8} {pid otherPid : Int}
    (same : name ++ 32 :: 91 :: (percentD pid ++ [93]) =
      other ++ 32 :: 91 :: (percentD otherPid ++ [93])) : name = other ∧ pid = otherPid := by
  have reversed := congrArg List.reverse same
  simp only [List.reverse_append, List.reverse_cons, List.reverse_nil, List.nil_append,
    List.append_assoc, List.cons_append] at reversed
  have numbers := (List.cons.inj reversed).2
  have bracketFree : ∀ number : Int, (91 : UInt8) ∉ (percentD number).reverse := by
    intro number member
    exact not_mem_percentD number (by decide) (.inr (by decide)) (List.mem_reverse.mp member)
  obtain ⟨digits, names⟩ := split_first (bracketFree pid) (bracketFree otherPid) numbers
  have names := (List.cons.inj names).2
  exact ⟨List.reverse_injective names, percentD_injective (List.reverse_injective digits)⟩

theorem line_eq_iff {entry other : Nat × Task} :
    line entry = line other ↔ entry.1 - 1 = other.1 - 1 ∧ entry.2 = other.2 := by
  constructor
  · intro same
    have dashFree : ∀ width : Nat, (45 : UInt8) ∉ List.replicate width 32 := by
      intro width member
      exact absurd (List.eq_of_mem_replicate member) (by decide)
    obtain ⟨indentations, tasks⟩ := split_first (dashFree _) (dashFree _) same
    have widths := congrArg List.length indentations
    rw [List.length_replicate, List.length_replicate] at widths
    obtain ⟨names, pids⟩ := line_task tasks
    constructor
    · omega
    · exact Task.ext names (Int32.toInt_inj.mp pids)
  · intro premise
    rw [line, line, premise.1, premise.2]

mutual

/-- Below the root every entry is at a depth of its own, so its line tells it. -/
theorem listed_deep : ∀ (tree : TaskStruct) (depth : Nat),
    ∀ entry ∈ tree.listed depth, depth ≤ entry.1
  | .node task children, depth, entry, member => by
      rw [LabelTree.listed] at member
      rcases List.mem_cons.mp member with rfl | below
      · exact Nat.le_refl _
      · exact Nat.le_of_succ_le (listedAll_deep children (depth + 1) entry below)

theorem listedAll_deep : ∀ (forest : List TaskStruct) (depth : Nat),
    ∀ entry ∈ listedAll depth forest, depth ≤ entry.1
  | [], depth, entry, member => by
      rw [listedAll_nil] at member
      cases member
  | tree :: rest, depth, entry, member => by
      rw [listedAll_cons] at member
      rcases List.mem_append.mp member with here | later
      · exact listed_deep tree depth entry here
      · exact listedAll_deep rest depth entry later

end

/-- Lines of entries below the root determine the entries. -/
theorem lines_injective {entries others : List (Nat × Task)}
    (deep : ∀ entry ∈ entries, 1 ≤ entry.1) (otherDeep : ∀ entry ∈ others, 1 ≤ entry.1)
    (same : entries.map line = others.map line) : entries = others := by
  induction entries generalizing others with
  | nil => exact (List.map_eq_nil_iff.mp same.symm).symm
  | cons entry rest ih =>
      cases others with
      | nil => cases same
      | cons other rest' =>
          obtain ⟨heads, tails⟩ := List.cons.inj same
          obtain ⟨depths, tasks⟩ := line_eq_iff.mp heads
          have lower := deep entry List.mem_cons_self
          have otherLower := otherDeep other List.mem_cons_self
          have entriesSame : entry = other := Prod.ext (by omega) tasks
          rw [entriesSame, ih (fun below member => deep below (List.mem_cons_of_mem _ member))
            (fun below member => otherDeep below (List.mem_cons_of_mem _ member)) tails]

/-- The lines of a tree, the root's first, determine it. -/
theorem listing_injective {tree other : TaskStruct}
    (same : (tree.listed 0).map line = (other.listed 0).map line) : tree = other := by
  cases tree with
  | node task children =>
      cases other with
      | node task' children' =>
          rw [LabelTree.listed, LabelTree.listed, List.map_cons, List.map_cons] at same
          obtain ⟨roots, rests⟩ := List.cons.inj same
          have tasks : task = task' := (line_eq_iff.mp roots).2
          have below := lines_injective (listedAll_deep children 1) (listedAll_deep children' 1)
            rests
          have listings : (LabelTree.node task children).listed 0 =
              (LabelTree.node task' children').listed 0 := by
            rw [LabelTree.listed, LabelTree.listed, tasks, below]
          exact listed_injective listings

/-- What `recursive_search` prints are lines in pre-order, a task at depth `d` indented by
`2 * (d - 1)` blanks, and they determine the tree. -/
theorem recursiveSearch_readable {tree : TaskStruct} (oneLine : NamesOnOneLine tree) :
    (recursiveSearch tree 0).splitOn 10 = (tree.listed 0).map line ++ [[]] ∧
      (tree.listed 0).map Prod.snd = tree.labels ∧
      ∀ other : TaskStruct, NamesOnOneLine other →
        recursiveSearch other 0 = recursiveSearch tree 0 → other = tree := by
  have lines : ∀ printed : TaskStruct, NamesOnOneLine printed →
      (recursiveSearch printed 0).splitOn 10 = (printed.listed 0).map line ++ [[]] := by
    intro printed names
    rw [recursiveSearch_eq]
    apply splitOn_lines
    intro entry member
    apply names
    rw [← listed_labels 0 printed]
    exact List.mem_map_of_mem member
  constructor
  · exact lines tree oneLine
  · constructor
    · exact listed_labels 0 tree
    · intro other otherOneLine same
      have listings := lines other otherOneLine
      rw [same, lines tree oneLine] at listings
      exact listing_injective (List.append_cancel_right listings).symm

def smallTree : TaskStruct :=
  .node ⟨ascii "swapper/0".toList, 0⟩
    [.node ⟨ascii "systemd".toList, 1⟩ [.node ⟨ascii "tmux: client".toList, 9287⟩ []],
      .node ⟨ascii "-[2] ".toList, 2⟩ []]

theorem recursiveSearch_readable_small :
    (recursiveSearch smallTree 0).splitOn 10 = (smallTree.listed 0).map line ++ [[]] ∧
      (smallTree.listed 0).map Prod.snd = smallTree.labels ∧
      ∀ other : TaskStruct, NamesOnOneLine other →
        recursiveSearch other 0 = recursiveSearch smallTree 0 → other = smallTree := by
  apply recursiveSearch_readable
  rw [NamesOnOneLine]
  decide

end LKP.Proj4
