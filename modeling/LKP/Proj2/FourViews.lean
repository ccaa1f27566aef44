import LKP.Proj2.Cleanup

/-
One read of `/proc/proj2`: the same numbers in the order of the list, of the hash
table, of the search tree and of the radix tree.

The first two lines follow the order of parsing and of hashing.  The tree shows
each number once, by increasing value; the radix tree shows each once by
increasing key, and a negative number has a key beyond all others.
-/

set_option autoImplicit false

namespace LKP.Proj2

open RedBlackTree

/-! ### The text -/

def decimals : List Int → String
  | [] => ""
  | number :: rest => toString number ++ " " ++ decimals rest

def increasing (numbers : Finset Int) : List Int := numbers.sort (· ≤ ·)

/-- The numbers without repetition, the negative ones last. -/
def byKey (numbers : Finset Int) : List Int :=
  increasing (numbers.filter (fun number => 0 ≤ number)) ++
    increasing (numbers.filter (fun number => number < 0))

/-- The four lines for these numbers, with the order in which the hash table has them. -/
def fourLines (numbers hashed : List Int) : String :=
  "Linked List = " ++ decimals numbers ++ "\n" ++
    "Hash Table = " ++ decimals hashed ++ "\n" ++
    "R-B Tree = " ++ decimals (increasing numbers.toFinset) ++ "\n" ++
    "Radix Tree = " ++ decimals (byKey numbers.toFinset) ++ "\n"

def numbersOf (values : List Int32) : List Int := values.map Int32.toInt

theorem seqPrintEntries_eq (entries : List Entry) :
    seqPrintEntries entries = decimals (numbersOf (entries.map Entry.val)) := by
  induction entries with
  | nil => rfl
  | cons entry rest ih =>
      rw [seqPrintEntries, ih]
      rfl

/-! ### The two sorted orders -/

theorem increasing_pairwise (numbers : Finset Int) :
    (increasing numbers).Pairwise (fun left right => left < right) :=
  (Finset.sortedLT_sort numbers).pairwise

theorem mem_increasing {numbers : Finset Int} {number : Int} :
    number ∈ increasing numbers ↔ number ∈ numbers :=
  Finset.mem_sort _

theorem eq_of_strict {order : Int → Int → Prop} (asymmetric : ∀ left right,
    order left right → ¬ order right left) {first second : List Int}
    (firstOrder : first.Pairwise order) (secondOrder : second.Pairwise order)
    (members : ∀ number, number ∈ first ↔ number ∈ second) : first = second := by
  have nodup : ∀ {numbers : List Int}, numbers.Pairwise order → numbers.Nodup := by
    intro numbers ordered
    apply List.Pairwise.imp _ ordered
    intro left right less same
    subst same
    exact asymmetric left left less less
  have perm := (List.perm_ext_iff_of_nodup (nodup firstOrder) (nodup secondOrder)).mpr members
  apply perm.eq_of_pairwise _ firstOrder secondOrder
  intro left right _ _ less more
  exact absurd more (asymmetric left right less)

def keyLess (left right : Int) : Prop := left % 2 ^ 64 < right % 2 ^ 64

theorem keyLess_of_signs {left right : Int} (leftRange : -2 ^ 31 ≤ left ∧ left < 2 ^ 31)
    (rightRange : -2 ^ 31 ≤ right ∧ right < 2 ^ 31)
    (signs : ((0 ≤ left ↔ 0 ≤ right) ∧ left < right) ∨ (0 ≤ left ∧ right < 0)) :
    keyLess left right := by
  unfold keyLess
  omega

theorem byKey_pairwise {numbers : Finset Int}
    (range : ∀ number ∈ numbers, -2 ^ 31 ≤ number ∧ number < 2 ^ 31) :
    (byKey numbers).Pairwise keyLess := by
  have front : ∀ number ∈ increasing (numbers.filter (fun number => 0 ≤ number)),
      number ∈ numbers ∧ 0 ≤ number :=
    fun number member => Finset.mem_filter.mp (mem_increasing.mp member)
  have back : ∀ number ∈ increasing (numbers.filter (fun number => number < 0)),
      number ∈ numbers ∧ number < 0 :=
    fun number member => Finset.mem_filter.mp (mem_increasing.mp member)
  apply List.pairwise_append.mpr
  refine ⟨?_, ?_, ?_⟩
  · apply List.Pairwise.imp_of_mem _ (increasing_pairwise _)
    intro left right leftMember rightMember less
    obtain ⟨leftIn, leftSign⟩ := front left leftMember
    obtain ⟨rightIn, rightSign⟩ := front right rightMember
    exact keyLess_of_signs (range left leftIn) (range right rightIn) (by omega)
  · apply List.Pairwise.imp_of_mem _ (increasing_pairwise _)
    intro left right leftMember rightMember less
    obtain ⟨leftIn, leftSign⟩ := back left leftMember
    obtain ⟨rightIn, rightSign⟩ := back right rightMember
    exact keyLess_of_signs (range left leftIn) (range right rightIn) (by omega)
  · intro left leftMember right rightMember
    obtain ⟨leftIn, leftSign⟩ := front left leftMember
    obtain ⟨rightIn, rightSign⟩ := back right rightMember
    exact keyLess_of_signs (range left leftIn) (range right rightIn) (by omega)

theorem mem_byKey {numbers : Finset Int} {number : Int} :
    number ∈ byKey numbers ↔ number ∈ numbers := by
  rw [byKey, List.mem_append, mem_increasing, mem_increasing, Finset.mem_filter,
    Finset.mem_filter]
  constructor
  · intro premise
    rcases premise with ⟨member, _⟩ | ⟨member, _⟩
    · exact member
    · exact member
  · intro member
    rcases Int.lt_or_le number 0 with negative | positive
    · exact .inr ⟨member, negative⟩
    · exact .inl ⟨member, positive⟩

theorem mem_numbersOf {values : List Int32} {number : Int} :
    number ∈ (numbersOf values).toFinset ↔ ∃ val ∈ values, val.toInt = number := by
  rw [List.mem_toFinset, numbersOf, List.mem_map]

/-! ### The lines of the two trees -/

/-- A search tree with these values shows each of them once, by increasing value. -/
theorem search_line {values : List Int32} {tree : RbTree Entry} (search : SearchTree tree)
    (members : ∀ val, (∃ entry ∈ tree.inorder, entry.val = val) ↔ val ∈ values) :
    numbersOf (tree.inorder.map Entry.val) = increasing (numbersOf values).toFinset := by
  have strict : ∀ left right : Int, left < right → ¬ right < left := by
    intro left right less more
    omega
  apply eq_of_strict strict _ (increasing_pairwise _)
  · intro number
    rw [mem_increasing, mem_numbersOf, numbersOf, List.mem_map]
    constructor
    · intro premise
      obtain ⟨val, member, rfl⟩ := premise
      exact ⟨val, (members val).mp (List.mem_map.mp member), rfl⟩
    · intro premise
      obtain ⟨val, member, rfl⟩ := premise
      exact ⟨val, List.mem_map.mpr ((members val).mpr member), rfl⟩
  · rw [numbersOf, List.map_map, List.pairwise_map]
    apply List.Pairwise.imp _ search
    intro left right less
    exact Int32.lt_iff_toInt_lt.mp less

theorem tree_line {values : List Int32} {tree : RbTree Entry} (holds : TreeHolds values tree) :
    numbersOf (tree.inorder.map Entry.val) = increasing (numbersOf values).toFinset :=
  search_line holds.search holds.member

theorem seqPrintRadix_found {values : List Int32} {tree : RadixTree}
    (holds : SlotsHold values tree) {indices : List UInt64}
    (present : ∀ index ∈ indices, index ∈ tree) :
    ∃ shown, seqPrintRadix tree indices = (decimals (numbersOf shown), true) ∧
      shown.map unsignedLong = indices := by
  induction indices with
  | nil => exact ⟨[], rfl, rfl⟩
  | cons index rest ih =>
      obtain ⟨shown, printed, keys⟩ :=
        ih (fun index member => present index (List.mem_cons_of_mem _ member))
      have here := Std.TreeMap.mem_iff_isSome_getElem?.mp (present index List.mem_cons_self)
      obtain ⟨temp2, found⟩ := Option.isSome_iff_exists.mp here
      refine ⟨temp2.val :: shown, ?_, ?_⟩
      · simp only [seqPrintRadix, found, printed]
        rfl
      · rw [List.map_cons, keys, ← holds.keyed index temp2 found]

theorem slots_line {values shown : List Int32} {tree : RadixTree}
    (holds : SlotsHold values tree) (keys : shown.map unsignedLong = tree.keys) :
    numbersOf shown = byKey (numbersOf values).toFinset := by
  have ascending : (shown.map unsignedLong).Pairwise
      (fun left right => compare left right = .lt) := by
    rw [keys]
    exact Std.TreeMap.ordered_keys
  have strict : ∀ left right : Int, keyLess left right → ¬ keyLess right left := by
    intro left right less more
    unfold keyLess at less more
    omega
  have range : ∀ number ∈ (numbersOf values).toFinset,
      -2 ^ 31 ≤ number ∧ number < 2 ^ 31 := by
    intro number member
    obtain ⟨val, _, rfl⟩ := mem_numbersOf.mp member
    exact ⟨val.le_toInt, val.toInt_lt⟩
  apply eq_of_strict strict _ (byKey_pairwise range)
  · intro number
    rw [mem_byKey, mem_numbersOf, numbersOf, List.mem_map]
    have same : ∀ val, val ∈ shown ↔ val ∈ values := by
      intro val
      rw [← holds.member, ← Std.TreeMap.mem_keys, ← keys, List.mem_map]
      constructor
      · intro member
        exact ⟨val, member, rfl⟩
      · intro premise
        obtain ⟨other, member, equal⟩ := premise
        rwa [← unsignedLong_injective equal]
    simp only [same]
  · rw [numbersOf, List.pairwise_map]
    rw [List.pairwise_map] at ascending
    apply List.Pairwise.imp _ ascending
    intro left right less
    have numbers := UInt64.lt_iff_toNat_lt.mp (Std.compare_eq_lt.mp less)
    rw [unsignedLong_toNat, unsignedLong_toNat] at numbers
    unfold keyLess
    omega

/-! ### The read -/

section Show

variable {kernel : Kernel}

theorem shown_lines {values : List Int32} {m : Module} (stored : Stored values m) :
    walk m.root m.root.inorder.length m.root.first = some m.root.inorder ∧
      seqPrintEntries m.mylist = decimals (numbersOf values) ∧
      seqPrintEntries m.root.inorder = decimals (increasing (numbersOf values).toFinset) ∧
      seqPrintRadix m.radixTree m.radixTree.keys =
        (decimals (byKey (numbersOf values).toFinset), true) := by
  refine ⟨walk_inorder stored.tree.search.nodup, ?_, ?_, ?_⟩
  · rw [seqPrintEntries_eq, stored.list]
  · rw [seqPrintEntries_eq, tree_line stored.tree]
  · obtain ⟨shown, printed, keys⟩ := seqPrintRadix_found stored.slots
      (fun index member => Std.TreeMap.mem_keys.mp member)
    rw [printed, slots_line stored.slots keys]

theorem proj2ProcShow_accepted (documented : kernel.Documented)
    (grants : ∀ request, kernel.grants request = true) {text : List Char} {m : Module}
    (given : m.intStr = some text) (empty : m.Empty) {values : List Int32}
    (accepted : parsedTokens kernel (text.splitOn ',') = .ok values) :
    (hashOrder kernel values).Perm values ∧
    ∃ after, after.Empty ∧ after.intStr = m.intStr ∧
      proj2ProcShow kernel m =
        some (0, fourLines (numbersOf values) (numbersOf (hashOrder kernel values)), after) := by
  have sameText : (granted m).intStr = some text := given
  obtain ⟨err, held, filled, parsing, between, whenAll, _⟩ :=
    parseParams_filled grants documented sameText empty.granted
  obtain ⟨rfl, rfl⟩ := whenAll values accepted
  have stored := between.stored
  have hashLine := between.chained.hashOrder
  obtain ⟨walked, listLine, treeLine, slotsLine⟩ := shown_lines stored
  obtain ⟨after, cleaned, emptied, still⟩ :=
    cleanup_empties documented stored.tree.search stored.tree.redBlack
  refine ⟨hashLine ▸ stored.hash, after, emptied, still.trans between.kept, ?_⟩
  have text : fourLines (numbersOf held) (numbersOf (hashOrder kernel held)) =
      seqPrintHead filled filled.root.inorder ++
        decimals (byKey (numbersOf held).toFinset) ++ "\n" := by
    unfold seqPrintHead fourLines
    rw [listLine, treeLine, seqPrintEntries_eq, hashLine]
  rw [text]
  simp only [proj2ProcShow, kmalloc_granted grants, sameText, parsing, ne_eq, not_true_eq_false,
    if_false, walked, slotsLine, cleaned]

theorem proj2ProcShow_rejected (documented : kernel.Documented)
    (grants : ∀ request, kernel.grants request = true) {text : List Char} {m : Module}
    (given : m.intStr = some text) (empty : m.Empty) {error : Errno}
    (rejected : parsedTokens kernel (text.splitOn ',') = .error error) :
    ∃ after, after.Empty ∧ after.intStr = m.intStr ∧
      proj2ProcShow kernel m = some (error.code, "", after) := by
  have sameText : (granted m).intStr = some text := given
  obtain ⟨err, held, filled, parsing, between, _, whenNot⟩ :=
    parseParams_filled grants documented sameText empty.granted
  have code : err = error.code := whenNot error rejected
  subst code
  obtain ⟨after, cleaned, emptied, still⟩ :=
    cleanup_empties documented between.stored.tree.search between.stored.tree.redBlack
  refine ⟨after, emptied, still.trans between.kept, ?_⟩
  simp only [proj2ProcShow, kmalloc_granted grants, sameText, parsing, ne_eq,
    error.code_ne_zero, not_false_eq_true, if_true, cleaned]

/-- A read without the parameter changes none of the structures. -/
theorem proj2ProcShow_missing {m : Module} (missing : m.intStr = none) (empty : m.Empty) :
    ∃ after, after.Empty ∧ after.intStr = m.intStr ∧
      proj2ProcShow kernel m = some (-1, "", after) := by
  by_cases grant : kernel.grants m.requests = true
  · refine ⟨printk "Missing 'int_str' parameter, exiting \n" (granted m), ?_, rfl, ?_⟩
    · exact ⟨empty.list, empty.hash, empty.tree, empty.slots⟩
    · simp only [proj2ProcShow, kmalloc, if_pos grant, granted, missing]
  · refine ⟨printk "Missing 'int_str' parameter, exiting \n"
      { m with requests := m.requests + 1 }, ?_, rfl, ?_⟩
    · exact ⟨empty.list, empty.hash, empty.tree, empty.slots⟩
    · simp only [proj2ProcShow, kmalloc, if_neg grant, missing]

inductive Reached (kernel : Kernel) (intStr : Option (List Char)) : Module → Prop
  | loaded {m : Module} (given : m.intStr = intStr) (empty : m.Empty) : Reached kernel intStr m
  | read {m after : Module} {code : Int} {shown : String} (reached : Reached kernel intStr m)
      (read : proj2ProcShow kernel m = some (code, shown, after)) :
      Reached kernel intStr after

theorem Reached.empty (documented : kernel.Documented)
    (grants : ∀ request, kernel.grants request = true) {intStr : Option (List Char)}
    {m : Module} (reached : Reached kernel intStr m) : m.Empty ∧ m.intStr = intStr := by
  induction reached with
  | loaded given empty => exact ⟨empty, given⟩
  | @read m after code shown _ read ih =>
      obtain ⟨empty, given⟩ := ih
      have known : ∃ last code' shown', last.Empty ∧ last.intStr = m.intStr ∧
          proj2ProcShow kernel m = some (code', shown', last) := by
        cases parameter : m.intStr with
        | none =>
            obtain ⟨last, emptied, kept, result⟩ := proj2ProcShow_missing parameter empty
            exact ⟨last, _, _, emptied, kept.trans parameter, result⟩
        | some text =>
            cases tokens : parsedTokens kernel (text.splitOn ',') with
            | error error =>
                obtain ⟨last, emptied, kept, result⟩ :=
                  proj2ProcShow_rejected documented grants parameter empty tokens
                exact ⟨last, _, _, emptied, kept.trans parameter, result⟩
            | ok values =>
                obtain ⟨_, last, emptied, kept, result⟩ :=
                  proj2ProcShow_accepted documented grants parameter empty tokens
                exact ⟨last, _, _, emptied, kept.trans parameter, result⟩
      obtain ⟨last, code', shown', emptied, kept, result⟩ := known
      rw [read] at result
      cases result
      exact ⟨emptied, kept.trans given⟩

/-- Every read of `/proc/proj2` shows the numbers of all non-empty tokens in four orders, or
returns the error of the first rejected token and shows nothing. -/
theorem proj2ProcShow_shows (documented : kernel.Documented)
    (grants : ∀ request, kernel.grants request = true) {text : List Char} {m : Module}
    (reached : Reached kernel (some text) m) :
    (∀ values, parsedTokens kernel (text.splitOn ',') = .ok values →
      ∃ hashed after, hashed.Perm (numbersOf values) ∧
        proj2ProcShow kernel m = some (0, fourLines (numbersOf values) hashed, after)) ∧
    (∀ error, parsedTokens kernel (text.splitOn ',') = .error error →
      ∃ after, proj2ProcShow kernel m = some (error.code, "", after)) := by
  obtain ⟨empty, given⟩ := reached.empty documented grants
  constructor
  · intro values accepted
    obtain ⟨perm, after, _, _, shown⟩ :=
      proj2ProcShow_accepted documented grants given empty accepted
    exact ⟨_, after, perm.map Int32.toInt, shown⟩
  · intro error rejected
    obtain ⟨after, _, _, shown⟩ :=
      proj2ProcShow_rejected documented grants given empty rejected
    exact ⟨after, shown⟩

end Show

/-! ### A kernel -/

def decimalValue (digits : List Char) : Option Nat :=
  digits.foldl
    (fun sum digit => sum.bind (fun sum =>
      if digit.isDigit then some (10 * sum + (digit.toNat - '0'.toNat)) else none))
    (if digits = [] then none else some 0)

/-- `kstrtoint` on decimal numbers, where base 0 and base 10 agree. -/
def kstrtointDecimal (text : List Char) : Except Errno Int32 :=
  let number : Option Int :=
    match text with
    | '-' :: digits => (decimalValue digits).map (fun value => -(value : Int))
    | '+' :: digits => (decimalValue digits).map (fun value => (value : Int))
    | digits => (decimalValue digits).map (fun value => (value : Int))
  match number with
  | none => .error .einval
  | some value =>
      if -2 ^ 31 ≤ value ∧ value < 2 ^ 31 then .ok (Int32.ofInt value) else .error .erange

def hash32 (val : Int32) : Bucket := Fin.ofNat _ ((val.toUInt32 * 0x61C88647) >>> 29).toNat

/-- A kernel that has memory and rebalances by building the tree anew. -/
def plainKernel : Kernel where
  grants _ := true
  kstrtoint := kstrtointDecimal
  hashMin := hash32
  rbInsertColor tree _ := ofList tree.inorder
  rbErase tree item := ofList (tree.inorder.erase item)

theorem plainKernel_documented : plainKernel.Documented where
  insertColor_inorder tree _ := ofList_inorder tree.inorder
  insertColor_redBlack _ _ _ := ofList_redBlack _
  erase_inorder tree passed item rest order nodup := by
    have early : item ∉ passed := by
      rw [order] at nodup
      intro member
      exact (List.nodup_append'.mp nodup).2.2 member List.mem_cons_self
    calc (plainKernel.rbErase tree item).inorder
        = tree.inorder.erase item := ofList_inorder _
      _ = passed ++ rest := by
        rw [order, List.erase_append_right _ early, List.erase_cons_head]
  erase_redBlack _ _ _ _ := ofList_redBlack _

def loaded (text : String) : Module where
  intStr := some text.toList
  mylist := []
  myHTable _ := []
  root := .nil
  radixTree := ∅
  requests := 0
  ledger := []
  log := []

theorem loaded_reached (kernel : Kernel) (text : String) :
    Reached kernel (some text.toList) (loaded text) :=
  .loaded rfl ⟨rfl, fun _ => rfl, rfl, Std.TreeMap.isEmpty_emptyc⟩

theorem proj2ProcShow_shows_both :
    (∃ hashed after, hashed.Perm [1, 2, 2, -3] ∧
      proj2ProcShow plainKernel (loaded "1,2,,2,-3") =
        some (0, fourLines [1, 2, 2, -3] hashed, after)) ∧
    (∃ after, proj2ProcShow plainKernel (loaded "1,x,3") = some (-22, "", after)) := by
  constructor
  · exact (proj2ProcShow_shows plainKernel_documented (fun _ => rfl)
      (loaded_reached plainKernel "1,2,,2,-3")).1 [1, 2, 2, -3] (by decide)
  · exact (proj2ProcShow_shows plainKernel_documented (fun _ => rfl)
      (loaded_reached plainKernel "1,x,3")).2 .einval (by decide)

end LKP.Proj2
