import LKP.Library.CIntegers
import LKP.Proj2.Insertion

/-
What the parser leaves in the four structures.

Each structure holds the parsed values in its own way; one round of the loop adds
one value to all four, so that at every point of the loop they hold the values of
the tokens passed.
-/

set_option autoImplicit false

namespace LKP.Proj2

open RedBlackTree

/-! ### Values in the structures -/

structure TreeHolds (values : List Int32) (tree : RbTree Entry) : Prop where
  search : SearchTree tree
  redBlack : RedBlack tree
  member : ∀ val, (∃ entry ∈ tree.inorder, entry.val = val) ↔ val ∈ values

structure SlotsHold (values : List Int32) (tree : RadixTree) : Prop where
  keyed : ∀ index entry, tree[index]? = some entry → index = unsignedLong entry.val
  member : ∀ val, unsignedLong val ∈ tree ↔ val ∈ values

/-- The four structures hold these values, parsed in this order. -/
structure Stored (values : List Int32) (m : Module) : Prop where
  list : m.mylist.map Entry.val = values
  hash : ((hashEntries m.myHTable).map Entry.val).Perm values
  tree : TreeHolds values m.root
  slots : SlotsHold values m.radixTree

structure Module.Empty (m : Module) : Prop where
  list : m.mylist = []
  hash : ∀ bucket, m.myHTable bucket = []
  tree : m.root = .nil
  slots : m.radixTree.isEmpty = true

theorem Module.Empty.granted {m : Module} (empty : m.Empty) : (granted m).Empty :=
  ⟨empty.list, empty.hash, empty.tree, empty.slots⟩

theorem Stored.kfree {values : List Int32} {m : Module} (stored : Stored values m)
    (address : Nat) : Stored values (kfree address m) :=
  ⟨stored.list, stored.hash, stored.tree, stored.slots⟩

theorem Module.Empty.stored {m : Module} (empty : m.Empty) : Stored [] m := by
  have noEntries : hashEntries m.myHTable = [] := by
    apply List.flatMap_eq_nil_iff.mpr
    intro bucket _
    exact empty.hash bucket
  constructor
  · rw [empty.list]
    rfl
  · rw [noEntries]
    exact List.Perm.nil
  · rw [empty.tree]
    constructor
    · exact List.Pairwise.nil
    · exact redBlack_nil
    · intro val
      simp [RbTree.inorder]
  · have absent := Std.TreeMap.isEmpty_iff_forall_not_mem.mp empty.slots
    constructor
    · intro index entry found
      exact absurd (Std.TreeMap.mem_iff_isSome_getElem?.mpr (by rw [found]; rfl)) (absent index)
    · intro val
      simp [absent]

/-! ### Keys of the radix tree -/

theorem unsignedLong_toNat (key : Int32) :
    (unsignedLong key).toNat = (key.toInt % 2 ^ 64).toNat := by
  have converted := CIntegers.unsigned_toNat key.toInt64
  rw [Int32.toInt_toInt64] at converted
  rw [unsignedLong, ← converted, Int.toNat_natCast]

theorem unsignedLong_injective {left right : Int32}
    (same : unsignedLong left = unsignedLong right) : left = right := by
  have numbers := congrArg UInt64.toNat same
  rw [unsignedLong_toNat, unsignedLong_toNat] at numbers
  have leftLower := left.le_toInt
  have leftUpper := left.toInt_lt
  have rightLower := right.le_toInt
  have rightUpper := right.toInt_lt
  apply Int32.toInt_inj.mp
  omega

theorem SlotsHold.insert {values : List Int32} {tree : RadixTree} {val : Int32} {entry : Entry}
    (holds : SlotsHold values tree) (same : entry.val = val) :
    SlotsHold (values ++ [val]) (tree.insert (unsignedLong val) entry) := by
  constructor
  · intro index found held
    rw [Std.TreeMap.getElem?_insert] at held
    split at held
    · rename_i equal
      cases held
      rw [same]
      exact (Std.LawfulEqCmp.eq_of_compare equal).symm
    · exact holds.keyed index found held
  · intro other
    rw [Std.TreeMap.mem_insert, holds.member, List.mem_append, List.mem_singleton]
    constructor
    · intro premise
      rcases premise with equal | earlier
      · exact .inr (unsignedLong_injective (Std.LawfulEqCmp.eq_of_compare equal)).symm
      · exact .inl earlier
    · intro premise
      rcases premise with earlier | rfl
      · exact .inr earlier
      · exact .inl Std.ReflCmp.compare_self

theorem mem_again {values : List Int32} {val : Int32} (present : val ∈ values) (other : Int32) :
    other ∈ values ↔ other ∈ values ++ [val] := by
  rw [List.mem_append, List.mem_singleton]
  constructor
  · exact .inl
  · intro premise
    rcases premise with earlier | rfl
    · exact earlier
    · exact present

theorem SlotsHold.again {values : List Int32} {tree : RadixTree} {val : Int32}
    (holds : SlotsHold values tree) (present : val ∈ values) :
    SlotsHold (values ++ [val]) tree :=
  ⟨holds.keyed, fun other => (holds.member other).trans (mem_again present other)⟩

theorem TreeHolds.again {values : List Int32} {tree : RbTree Entry} {val : Int32}
    (holds : TreeHolds values tree) (present : val ∈ values) :
    TreeHolds (values ++ [val]) tree :=
  ⟨holds.search, holds.redBlack,
    fun other => (holds.member other).trans (mem_again present other)⟩

theorem TreeHolds.insert {values : List Int32} {tree root : RbTree Entry} {insertion : Entry}
    {slot : Slot Entry} (holds : TreeHolds values tree) (belongs : Belongs insertion slot)
    (around : tree.inorder = before slot ++ after slot)
    (within : root.inorder = before slot ++ insertion :: after slot) (shape : RedBlack root) :
    TreeHolds (values ++ [insertion.val]) root := by
  refine ⟨belongs.search holds.search around within, shape, ?_⟩
  intro other
  have entries : ∀ entry, entry ∈ root.inorder ↔ entry ∈ tree.inorder ∨ entry = insertion := by
    intro entry
    rw [within, around, List.mem_append, List.mem_cons, List.mem_append]
    tauto
  rw [List.mem_append, List.mem_singleton, ← holds.member]
  constructor
  · intro premise
    obtain ⟨entry, member, rfl⟩ := premise
    rcases (entries entry).mp member with earlier | rfl
    · exact .inl ⟨entry, earlier, rfl⟩
    · exact .inr rfl
  · intro premise
    rcases premise with ⟨entry, earlier, rfl⟩ | rfl
    · exact ⟨entry, (entries entry).mpr (.inl earlier), rfl⟩
    · exact ⟨insertion, (entries insertion).mpr (.inr rfl), rfl⟩

/-! ### One value -/

/-- An entry at the head of one bucket comes before all others, up to order. -/
theorem flatMap_update_perm (table : Bucket → List Entry) (entry : Entry)
    {indices : List Bucket} {bucket : Bucket} (nodup : indices.Nodup)
    (member : bucket ∈ indices) :
    (indices.flatMap (Function.update table bucket (entry :: table bucket))).Perm
      (entry :: indices.flatMap table) := by
  induction indices with
  | nil => exact absurd member List.not_mem_nil
  | cons index rest ih =>
      obtain ⟨notAgain, restNodup⟩ := List.nodup_cons.mp nodup
      rw [List.flatMap_cons, List.flatMap_cons]
      by_cases here : index = bucket
      · subst here
        have others : rest.flatMap (Function.update table index (entry :: table index)) =
            rest.flatMap table := by
          apply List.flatMap_congr
          intro other inRest
          apply Function.update_of_ne
          intro same
          subst same
          exact notAgain inRest
        rw [others, Function.update_self]
        exact List.Perm.refl _
      · rw [Function.update_of_ne here]
        rcases List.mem_cons.mp member with same | inRest
        · exact absurd same.symm here
        · exact ((ih restNodup inRest).append_left _).trans List.perm_middle

theorem insertRbTree_holds {kernel : Kernel} (documented : kernel.Documented)
    {values : List Int32} {treeRoot : RbTree Entry} (insertion : Entry)
    (holds : TreeHolds values treeRoot) :
    ∃ result root, insertRbTree kernel treeRoot insertion = some (result, root) ∧
      TreeHolds (values ++ [insertion.val]) root ∧
      ∀ entry ∈ root.inorder, entry = insertion ∨ entry ∈ treeRoot.inorder := by
  by_cases present : ∃ this ∈ treeRoot.inorder, this.val = insertion.val
  · refine ⟨-1, treeRoot, insertRbTree_present holds.search present, ?_, ?_⟩
    · exact holds.again ((holds.member insertion.val).mp present)
    · intro entry member
      exact .inr member
  · have absent : ∀ this ∈ treeRoot.inorder, this.val ≠ insertion.val :=
      fun this member same => present ⟨this, member, same⟩
    obtain ⟨root, slot, inserted, around, within, belongs, shape⟩ :=
      insertRbTree_absent documented holds.search absent
    have holdsMore := holds.insert belongs around within (shape holds.redBlack)
    refine ⟨0, root, inserted, holdsMore, ?_⟩
    intro entry member
    rw [within] at member
    rw [around]
    rcases List.mem_append.mp member with early | late
    · exact .inr (List.mem_append_left _ early)
    · rcases List.mem_cons.mp late with same | further
      · exact .inl same
      · exact .inr (List.mem_append_right _ further)

section Granted

variable {kernel : Kernel} (grants : ∀ request, kernel.grants request = true)

include grants

theorem kmalloc_granted (m : Module) : kmalloc kernel m = (some m.requests, granted m) :=
  if_pos (grants m.requests)

theorem radixTreeInsert_holds {values : List Int32} {val : Int32} {entry : Entry} {m : Module}
    (same : entry.val = val) (holds : SlotsHold values m.radixTree) :
    SlotsHold (values ++ [val])
      (radixTreeInsert kernel (unsignedLong val) entry m).2.radixTree := by
  by_cases present : unsignedLong val ∈ m.radixTree
  · rw [radixTreeInsert_present present]
    exact holds.again ((holds.member val).mp present)
  · rw [radixTreeInsert_granted present (grants m.requests)]
    exact holds.insert same

theorem storeAll_stored (documented : kernel.Documented) {values : List Int32} (val : Int32)
    {m : Module} (stored : Stored values m) :
    ∃ after root, storeAll kernel val m = some (0, after) ∧ Stored (values ++ [val]) after ∧
      after = (radixTreeInsert kernel (unsignedLong val) ⟨m.requests + 3, val⟩
        (storedThree kernel val root m)).2 ∧
      ∀ entry ∈ root.inorder, entry = ⟨m.requests + 2, val⟩ ∨ entry ∈ m.root.inorder := by
  obtain ⟨result, root, inserted, storedTree, entries⟩ :=
    insertRbTree_holds documented ⟨m.requests + 2, val⟩ stored.tree
  have memory : ∀ call < 4, kernel.grants (m.requests + call) = true :=
    fun call _ => grants (m.requests + call)
  let entry : Entry := ⟨m.requests + 3, val⟩
  let linked := storedThree kernel val root m
  obtain ⟨slots, requests, frame, _⟩ :=
    @radixTreeInsert_frame kernel (unsignedLong val) entry linked
  refine ⟨(radixTreeInsert kernel (unsignedLong val) entry linked).2, root,
    storeAll_eq memory inserted, ?_, rfl, entries⟩
  have storedSlots : SlotsHold (values ++ [val])
      (radixTreeInsert kernel (unsignedLong val) entry linked).2.radixTree :=
    radixTreeInsert_holds grants rfl stored.slots
  rw [frame] at storedSlots ⊢
  constructor
  · change (m.mylist ++ [Entry.mk m.requests val]).map Entry.val = values ++ [val]
    rw [List.map_append, stored.list]
    rfl
  · have added := flatMap_update_perm m.myHTable ⟨m.requests + 1, val⟩
      (List.nodup_finRange (2 ^ 3)) (List.mem_finRange (kernel.hashMin val))
    have inFront := (added.map Entry.val).trans (List.Perm.cons val stored.hash)
    exact inFront.trans (List.perm_append_singleton val values).symm
  · exact storedTree
  · exact storedSlots

end Granted

/-! ### All tokens -/

def tokensOf : Option (List Char) → List (List Char)
  | none => []
  | some text => text.splitOn ','

theorem strsep_tokens (text : List Char) :
    ∃ first rest, strsep ',' (some text) = (some first, rest) ∧
      tokensOf (some text) = first :: tokensOf rest := by
  have joined := List.takeWhile_append_dropWhile (p := fun char => char != ',') (l := text)
  have noComma : ',' ∉ text.takeWhile (fun char => char != ',') := by
    intro member
    exact absurd (List.mem_takeWhile_imp member) (by simp)
  simp only [strsep]
  cases dropped : text.dropWhile (fun char => char != ',') with
  | nil =>
      rw [dropped, List.append_nil] at joined
      rw [joined] at noComma
      exact ⟨text, none, rfl, List.splitOn_eq_singleton noComma⟩
  | cons comma rest =>
      have isComma : comma = ',' := by
        have head := List.head?_dropWhile_not (fun char => char != ',') text
        rw [dropped] at head
        simpa using head
      refine ⟨_, some rest, rfl, ?_⟩
      rw [dropped, isComma] at joined
      calc tokensOf (some text)
          = (text.takeWhile (fun char => char != ',') ++ ',' :: rest).splitOn ',' := by
            rw [joined]
            rfl
        _ = text.takeWhile (fun char => char != ',') :: tokensOf (some rest) :=
            List.splitOn_append_cons_self_of_not_mem noComma rest

theorem tokensOf_nil {params : Option (List Char)} (left : tokensOf params = []) :
    params = none := by
  cases params with
  | none => rfl
  | some text => exact absurd left (List.splitOn_ne_nil ',' text)

/-- While there are tokens left, `strsep` gives the first of them. -/
theorem strsep_cons {params : Option (List Char)} {token : List Char} {later : List (List Char)}
    (left : tokensOf params = token :: later) :
    ∃ rest, strsep ',' params = (some token, rest) ∧ tokensOf rest = later := by
  cases params with
  | none => cases left
  | some text =>
      obtain ⟨first, rest, separated, split⟩ := strsep_tokens text
      obtain ⟨rfl, following⟩ := List.cons.inj (split.symm.trans left)
      exact ⟨rest, separated, following⟩

/-- What tokens stand for: the number of each one that is not empty, or the error of the
first one that is rejected. -/
def parsedTokens (kernel : Kernel) (tokens : List (List Char)) : Except Errno (List Int32) :=
  (tokens.filter (fun token => token ≠ [])).mapM kernel.kstrtoint

section Tokens

variable {kernel : Kernel}

theorem parsedTokens_blank (rest : List (List Char)) :
    parsedTokens kernel ([] :: rest) = parsedTokens kernel rest := by
  simp [parsedTokens]

theorem parsedTokens_rejected {token : List Char} {error : Errno} (rest : List (List Char))
    (nonempty : token ≠ []) (rejected : kernel.kstrtoint token = .error error) :
    parsedTokens kernel (token :: rest) = .error error := by
  simp [parsedTokens, nonempty, rejected, bind, Except.bind]

theorem parsedTokens_accepted {token : List Char} {val : Int32} (rest : List (List Char))
    (nonempty : token ≠ []) (accepted : kernel.kstrtoint token = .ok val) :
    parsedTokens kernel (token :: rest) =
      (parsedTokens kernel rest).map (fun values => val :: values) := by
  simp only [parsedTokens, ne_eq, nonempty, not_false_eq_true, decide_true, List.filter_cons_of_pos,
    List.mapM_cons, accepted]
  rfl

theorem parseLoop_end (err : Int) (m : Module) : parseLoop kernel none err m = some (err, m) := by
  rw [parseLoop]
  rfl

theorem parseLoop_token {params rest : Option (List Char)} {p : List Char} (err : Int)
    (m : Module) (separated : strsep ',' params = (some p, rest)) :
    parseLoop kernel params err m =
      if p = [] then parseLoop kernel rest err m
      else
        match kernel.kstrtoint p with
        | .error error => some (error.code, m)
        | .ok val =>
            match storeAll kernel val m with
            | none => none
            | some (err, m) =>
                if err ≠ 0 then some (err, m) else parseLoop kernel rest err m := by
  rw [parseLoop]
  split
  · rename_i ended
    rw [separated] at ended
    cases ended
  · rename_i found
    rw [separated] at found
    cases found
    rfl

/-- The rule of the loop, for what every round of stores extends by its value: it holds at the
end, of all values if the tokens to come are accepted.  The loop then returns zero; if one is
rejected, its error. -/
theorem parseLoop_rule {Holds : List Int32 → Module → Prop}
    (stores : ∀ values val m, Holds values m →
      ∃ after, storeAll kernel val m = some (0, after) ∧ Holds (values ++ [val]) after)
    {tokens : List (List Char)} {params : Option (List Char)} {values : List Int32} {m : Module}
    (left : tokensOf params = tokens) (holds : Holds values m) :
    ∃ err held after, parseLoop kernel params 0 m = some (err, after) ∧ Holds held after ∧
      (∀ more, parsedTokens kernel tokens = .ok more → err = 0 ∧ held = values ++ more) ∧
      (∀ error, parsedTokens kernel tokens = .error error → err = error.code) := by
  induction tokens generalizing params values m with
  | nil =>
      obtain rfl := tokensOf_nil left
      refine ⟨0, values, m, parseLoop_end 0 m, holds, ?_, ?_⟩
      · intro more nothing
        cases nothing
        exact ⟨rfl, (List.append_nil values).symm⟩
      · intro error rejected
        cases rejected
  | cons token later ih =>
      obtain ⟨rest, separated, following⟩ := strsep_cons left
      rw [parseLoop_token 0 m separated]
      by_cases blank : token = []
      · subst blank
        rw [if_pos rfl, parsedTokens_blank]
        exact ih following holds
      · rw [if_neg blank]
        cases number : kernel.kstrtoint token with
        | error error =>
            rw [parsedTokens_rejected later blank number]
            refine ⟨error.code, values, m, rfl, holds, ?_, ?_⟩
            · intro more accepted
              cases accepted
            · intro same rejected
              cases rejected
              rfl
        | ok val =>
            obtain ⟨added, storing, holdsMore⟩ := stores values val m holds
            obtain ⟨err, held, after, looped, holdsAll, whenAll, whenNot⟩ :=
              ih following holdsMore
            rw [parsedTokens_accepted later blank number]
            simp only [storing, ne_eq, not_true_eq_false, if_false]
            refine ⟨err, held, after, looped, holdsAll, ?_, ?_⟩
            · intro more accepted
              cases numbers : parsedTokens kernel later with
              | error error =>
                  rw [numbers] at accepted
                  cases accepted
              | ok values' =>
                  rw [numbers] at accepted
                  cases accepted
                  obtain ⟨zero, rfl⟩ := whenAll values' numbers
                  exact ⟨zero, by rw [List.append_assoc]; rfl⟩
            · intro error rejected
              cases numbers : parsedTokens kernel later with
              | error error' =>
                  rw [numbers] at rejected
                  cases rejected
                  exact whenNot error numbers
              | ok values' =>
                  rw [numbers] at rejected
                  cases rejected

/-- `parse_params` of an accessible string: what holds of the copied string, and is extended by
every round of stores, holds before the copy is freed. -/
theorem parseParams_rule (grants : ∀ request, kernel.grants request = true)
    {Holds : List Int32 → Module → Prop}
    (stores : ∀ values val m, Holds values m →
      ∃ after, storeAll kernel val m = some (0, after) ∧ Holds (values ++ [val]) after)
    {text : List Char} {m : Module} (given : m.intStr = some text)
    (holds : Holds [] (granted m)) :
    ∃ err held after, parseParams kernel m = some (err, kfree m.requests after) ∧
      Holds held after ∧
      (∀ values, parsedTokens kernel (text.splitOn ',') = .ok values →
        err = 0 ∧ held = values) ∧
      (∀ error, parsedTokens kernel (text.splitOn ',') = .error error → err = error.code) := by
  have tokens : tokensOf (some text) = text.splitOn ',' := rfl
  obtain ⟨err, held, after, looped, holdsAll, whenAll, whenNot⟩ :=
    parseLoop_rule stores tokens holds
  refine ⟨err, held, after, ?_, holdsAll, ?_, whenNot⟩
  · simp only [parseParams, given, kmalloc_granted grants, looped]
  · intro values accepted
    obtain ⟨zero, same⟩ := whenAll values accepted
    exact ⟨zero, same⟩

/-! ### What a call leaves to be shown -/

def Chained (kernel : Kernel) (values : List Int32) (m : Module) : Prop :=
  ∀ bucket, (m.myHTable bucket).map Entry.val =
    (values.filter (fun val => kernel.hashMin val = bucket)).reverse

def hashOrder (kernel : Kernel) (values : List Int32) : List Int32 :=
  (List.finRange (2 ^ 3)).flatMap (fun bucket =>
    (values.filter (fun val => kernel.hashMin val = bucket)).reverse)

theorem Chained.hashOrder {values : List Int32} {m : Module} (chained : Chained kernel values m) :
    (hashEntries m.myHTable).map Entry.val = hashOrder kernel values := by
  rw [hashEntries, List.map_flatMap, LKP.Proj2.hashOrder]
  apply List.flatMap_congr
  intro bucket _
  exact chained bucket

theorem Chained.add {values : List Int32} {m : Module} (chained : Chained kernel values m)
    (val : Int32) (root : RbTree Entry) :
    Chained kernel (values ++ [val]) (storedThree kernel val root m) := by
  intro bucket
  change (Function.update m.myHTable (kernel.hashMin val)
    (⟨m.requests + 1, val⟩ :: m.myHTable (kernel.hashMin val)) bucket).map Entry.val = _
  by_cases here : bucket = kernel.hashMin val
  · subst here
    rw [Function.update_self, List.map_cons, chained, List.filter_append, List.reverse_append]
    simp
  · have passed : [val].filter (fun val => kernel.hashMin val = bucket) = [] := by
      simp [Ne.symm here]
    rw [Function.update_of_ne here, chained, List.filter_append, passed, List.append_nil]

/-- What holds between parsing and cleaning up, of a call that began with this parameter. -/
structure Filled (kernel : Kernel) (intStr : Option (List Char)) (values : List Int32)
    (m : Module) : Prop where
  kept : m.intStr = intStr
  stored : Stored values m
  chained : Chained kernel values m

theorem Filled.storeAll (grants : ∀ request, kernel.grants request = true)
    (documented : kernel.Documented) {intStr : Option (List Char)} {values : List Int32}
    {m : Module} (filled : Filled kernel intStr values m) (val : Int32) :
    ∃ after, storeAll kernel val m = some (0, after) ∧
      Filled kernel intStr (values ++ [val]) after := by
  obtain ⟨after, root, storing, stored, same, _⟩ :=
    storeAll_stored grants documented val filled.stored
  refine ⟨after, storing, ?_, stored, ?_⟩
  all_goals
    obtain ⟨slots, requests, frame, _⟩ := @radixTreeInsert_frame kernel (unsignedLong val)
      ⟨m.requests + 3, val⟩ (storedThree kernel val root m)
    rw [same, frame]
  · exact filled.kept
  · exact filled.chained.add val root

theorem Module.Empty.filled {m : Module} (empty : m.Empty) : Filled kernel m.intStr [] m := by
  refine ⟨rfl, empty.stored, ?_⟩
  intro bucket
  rw [empty.hash]
  rfl

theorem parseParams_filled (grants : ∀ request, kernel.grants request = true)
    (documented : kernel.Documented) {text : List Char} {m : Module}
    (given : m.intStr = some text) (empty : m.Empty) :
    ∃ err held after, parseParams kernel m = some (err, after) ∧
      Filled kernel m.intStr held after ∧
      (∀ values, parsedTokens kernel (text.splitOn ',') = .ok values →
        err = 0 ∧ held = values) ∧
      (∀ error, parsedTokens kernel (text.splitOn ',') = .error error → err = error.code) := by
  have filled : Filled kernel m.intStr [] (granted m) := empty.granted.filled
  obtain ⟨err, held, after, parsing, all, whenAll, whenNot⟩ :=
    parseParams_rule grants (fun values val m holds => holds.storeAll grants documented val)
      given filled
  refine ⟨err, held, kfree m.requests after, parsing, ?_, whenAll, whenNot⟩
  exact ⟨all.kept, all.stored.kfree m.requests, all.chained⟩

end Tokens

end LKP.Proj2
