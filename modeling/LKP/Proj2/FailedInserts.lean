import LKP.Proj2.Ledger

/-
Failing inserts and what `parse_params` makes of them.

The loop is run once more with a record of the values it stores and of the globals
it finds, so that each of the four stores of a value can be looked at.  A store
fails for want of memory, or because the tree or the radix tree refuses the value.
-/

set_option autoImplicit false

namespace LKP.Proj2

open RedBlackTree

/-! ### The loop with a record -/

/-- `parseLoop` over its tokens, with the values it stores and the globals it finds. -/
def recordedLoop (kernel : Kernel) :
    List (List Char) → Int → Module → List (Int32 × Module) × Option (Int × Module)
  | [], err, m => ([], some (err, m))
  | token :: rest, err, m =>
      if token = [] then recordedLoop kernel rest err m
      else
        match kernel.kstrtoint token with
        | .error error => ([], some (error.code, m))
        | .ok val =>
            match storeAll kernel val m with
            | none => ([(val, m)], none)
            | some (err, after) =>
                if err ≠ 0 then ([(val, m)], some (err, after))
                else
                  ((val, m) :: (recordedLoop kernel rest err after).1,
                    (recordedLoop kernel rest err after).2)

theorem recordedLoop_parseLoop (kernel : Kernel) {tokens : List (List Char)}
    {params : Option (List Char)} (left : tokensOf params = tokens) (err : Int) (m : Module) :
    (recordedLoop kernel tokens err m).2 = parseLoop kernel params err m := by
  induction tokens generalizing params err m with
  | nil =>
      obtain rfl := tokensOf_nil left
      exact (parseLoop_end err m).symm
  | cons token later ih =>
      obtain ⟨rest, separated, following⟩ := strsep_cons left
      rw [parseLoop_token err m separated, recordedLoop]
      by_cases blank : token = []
      · rw [if_pos blank, if_pos blank]
        exact ih following err m
      · rw [if_neg blank, if_neg blank]
        cases kernel.kstrtoint token with
        | error error => rfl
        | ok val =>
            cases storing : storeAll kernel val m with
            | none => simp only [storing]
            | some stored =>
                obtain ⟨code, after⟩ := stored
                by_cases failed : code ≠ 0
                · simp only [storing, if_pos failed]
                · simp only [storing, if_neg failed]
                  exact ih following code after

/-- The numbers of the tokens before the first one that is rejected, and its error. -/
def acceptedTokens (kernel : Kernel) : List (List Char) → List Int32 × Option Errno
  | [] => ([], none)
  | token :: rest =>
      if token = [] then acceptedTokens kernel rest
      else
        match kernel.kstrtoint token with
        | .error error => ([], some error)
        | .ok val =>
            (val :: (acceptedTokens kernel rest).1, (acceptedTokens kernel rest).2)

/-! ### The stores of a value -/

inductive Container where
  | list
  | hash
  | tree
  | slots

def Container.order : List Container := [.list, .hash, .tree, .slots]

def Container.store (kernel : Kernel) (val : Int32) : Container → Module → Option (Int × Module)
  | .list => storeValue kernel val
  | .hash => storeHashValue kernel val
  | .tree => rbTreeInsert kernel val
  | .slots => radixInsert kernel val

def Container.Fails (kernel : Kernel) (val : Int32) (m : Module) : Container → Prop
  | .list => (kmalloc kernel m).1 = none
  | .hash => (kmalloc kernel m).1 = none
  | .tree =>
      match kmalloc kernel m with
      | (none, _) => True
      | (some target, m) => (insertRbTree kernel m.root ⟨target, val⟩).map Prod.fst = some (-1)
  | .slots =>
      match kmalloc kernel m with
      | (none, _) => True
      | (some rnode, m) => (radixTreeInsert kernel (unsignedLong val) ⟨rnode, val⟩ m).1 ≠ 0

def Container.Same (before after : Module) : Container → Prop
  | .list => after.mylist = before.mylist
  | .hash => after.myHTable = before.myHTable
  | .tree => after.root = before.root
  | .slots => after.radixTree = before.radixTree

def Container.Has (kernel : Kernel) (val : Int32) (m : Module) : Container → Prop
  | .list => ∃ entry ∈ m.mylist, entry.val = val
  | .hash => ∃ entry ∈ m.myHTable (kernel.hashMin val), entry.val = val
  | .tree => ∃ entry ∈ m.root.inorder, entry.val = val
  | .slots => unsignedLong val ∈ m.radixTree

/-- The stores of a value, with the globals each of them finds; an oops ends them. -/
def attempts (kernel : Kernel) (val : Int32) :
    List Container → Module → List (Container × Module)
  | [], _ => []
  | place :: rest, m =>
      (place, m) ::
        match place.store kernel val m with
        | none => []
        | some (_, after) => attempts kernel val rest after

def storedRounds (kernel : Kernel) (m : Module) : List (Int32 × Module) :=
  match m.intStr with
  | none => []
  | some text =>
      match kmalloc kernel m with
      | (none, _) => []
      | (some _, m) => (recordedLoop kernel (text.splitOn ',') 0 m).1

/-- A store that fails stops the parser: it returns, with the container as it was, nothing
later is stored, and the code is not zero. -/
def Stops (kernel : Kernel) (rounds : List (Int32 × Module)) (code : Int) : Prop :=
  ∀ earlier val before later, rounds = earlier ++ (val, before) :: later →
    ∀ place found, (place, found) ∈ attempts kernel val Container.order before →
      place.Fails kernel val found →
        (∃ err after, place.store kernel val found = some (err, after) ∧
          place.Same found after) ∧ later = [] ∧ code ≠ 0

def Reports (kernel : Kernel) (m : Module) : Prop :=
  ∃ code after, parseParams kernel m = some (code, after) ∧
    Stops kernel (storedRounds kernel m) code ∧
    (code = 0 → ∀ text, m.intStr = some text →
      ∃ values, parsedTokens kernel (text.splitOn ',') = .ok values ∧
        ∀ val ∈ values, ∀ place : Container, place.Has kernel val after)

/-! ### When every store is reported -/

/-- The values whose inserts have to succeed: all, or all but the last one when a token after
it is rejected. -/
def checkedValues (values : List Int32) (rejected : Option Errno) : List Int32 :=
  match rejected with
  | none => values
  | some _ => values.dropLast

/-- There is memory for all entries of these values, and for the nodes of the radix tree of
those to be checked; these are different from each other and from what is stored. -/
structure Unhindered (kernel : Kernel) (m : Module) (values checked : List Int32) : Prop where
  memory : ∀ index < values.length, ∀ call < 4,
    kernel.grants (m.requests + 5 * index + call) = true
  nodes : ∀ index < checked.length, kernel.grants (m.requests + 5 * index + 4) = true
  distinct : checked.Nodup
  absent : ∀ val ∈ checked, (∀ entry ∈ m.root.inorder, entry.val ≠ val) ∧
    unsignedLong val ∉ m.radixTree

section Documented

variable {kernel : Kernel}

/-! ### One store -/

theorem tree_fails_iff (documented : kernel.Documented) {val : Int32} {found : Module}
    (search : SearchTree found.root) (grant : kernel.grants found.requests = true) :
    Container.Fails kernel val found .tree ↔ ∃ entry ∈ found.root.inorder, entry.val = val := by
  obtain ⟨result, root, inserted, _, refused, _, _⟩ :=
    insertRbTree_search documented.insertColor_inorder ⟨found.requests, val⟩ search
  have inserted : insertRbTree kernel (granted found).root ⟨found.requests, val⟩ =
      some (result, root) := inserted
  simp only [Container.Fails, kmalloc_given grant, inserted, Option.map_some, Option.some.injEq]
  exact refused

theorem slots_fails_iff {val : Int32} {found : Module}
    (grant : kernel.grants found.requests = true) :
    Container.Fails kernel val found .slots ↔
      unsignedLong val ∈ found.radixTree ∨ kernel.grants (found.requests + 1) = false := by
  simp only [Container.Fails, kmalloc_given grant]
  by_cases present : unsignedLong val ∈ found.radixTree
  · rw [radixTreeInsert_present (m := granted found) present]
    exact iff_of_true (Errno.code_ne_zero .eexist) (.inl present)
  · cases memory : kernel.grants (found.requests + 1) with
    | true =>
        rw [radixTreeInsert_granted (m := granted found) present memory]
        simp [present]
    | false =>
        rw [radixTreeInsert_denied (m := granted found) present memory]
        exact iff_of_true (Errno.code_ne_zero .enomem) (.inr rfl)

/-- A store that has memory for its entry and fails leaves its container alone. -/
theorem fails_harmless (documented : kernel.Documented) {val : Int32} {found : Module}
    {place : Container} (search : SearchTree found.root)
    (grant : kernel.grants found.requests = true) (failing : place.Fails kernel val found) :
    ∃ err after, place.store kernel val found = some (err, after) ∧ place.Same found after := by
  have given : (kmalloc kernel found).1 ≠ none := by
    rw [kmalloc_given grant]
    exact Option.some_ne_none _
  cases place with
  | list => exact absurd failing given
  | hash => exact absurd failing given
  | tree =>
      obtain ⟨result, root, inserted, _, refused, same, _⟩ :=
        insertRbTree_search documented.insertColor_inorder ⟨found.requests, val⟩ search
      have present := (tree_fails_iff documented search grant).mp failing
      exact ⟨0, _, rbTreeInsert_given grant inserted, same (refused.mpr present)⟩
  | slots =>
      refine ⟨0, _, radixInsert_given grant, ?_⟩
      change (radixTreeInsert kernel (unsignedLong val) ⟨found.requests, val⟩
        (granted found)).2.radixTree = found.radixTree
      by_cases present : unsignedLong val ∈ found.radixTree
      · rw [radixTreeInsert_present (m := granted found) present]
        rfl
      · have denied := ((slots_fails_iff grant).mp failing).resolve_left present
        rw [radixTreeInsert_denied (m := granted found) present denied]
        rfl

/-! ### The stores of one value -/

def Taken (kernel : Kernel) (val : Int32) (m : Module) : Prop :=
  (∃ entry ∈ m.root.inorder, entry.val = val) ∨ unsignedLong val ∈ m.radixTree ∨
    kernel.grants (m.requests + 4) = false

theorem attempts_granted (documented : kernel.Documented) {val : Int32} {m : Module}
    (search : SearchTree m.root)
    (memory : ∀ call < 4, kernel.grants (m.requests + call) = true) :
    ∃ listed hashed rooted, attempts kernel val Container.order m =
        [(.list, m), (.hash, listed), (.tree, hashed), (.slots, rooted)] ∧
      listed.requests = m.requests + 1 ∧ listed.root = m.root ∧
      hashed.requests = m.requests + 2 ∧ hashed.root = m.root ∧
      rooted.requests = m.requests + 3 ∧ SearchTree rooted.root ∧
      rooted.radixTree = m.radixTree := by
  obtain ⟨result, root, inserted, sorted, _⟩ :=
    insertRbTree_search documented.insertColor_inorder ⟨m.requests + 2, val⟩ search
  let listed := listAddTail ⟨m.requests, val⟩ (granted m)
  let hashed := hashAdd kernel ⟨m.requests + 1, val⟩ val (granted listed)
  let rooted : Module := { granted hashed with root := root }
  have inList : storeValue kernel val m = some (0, listed) :=
    storeValue_given (memory 0 (by omega))
  have inTable : storeHashValue kernel val listed = some (0, hashed) :=
    storeHashValue_given (memory 1 (by omega))
  have inTree : rbTreeInsert kernel val hashed = some (0, rooted) :=
    rbTreeInsert_given (memory 2 (by omega)) inserted
  have inSlots := @radixInsert_given kernel val rooted (memory 3 (by omega))
  refine ⟨listed, hashed, rooted, ?_, rfl, rfl, rfl, rfl, rfl, sorted, rfl⟩
  simp only [Container.order, attempts, Container.store, inList, inTable, inTree, inSlots]

/-- With memory for its entries, a store of the value fails only if the value is taken. -/
theorem attempts_fail_iff (documented : kernel.Documented) {val : Int32} {m : Module}
    (search : SearchTree m.root)
    (memory : ∀ call < 4, kernel.grants (m.requests + call) = true) :
    (∃ place found, (place, found) ∈ attempts kernel val Container.order m ∧
      place.Fails kernel val found) ↔ Taken kernel val m := by
  obtain ⟨listed, hashed, rooted, all, listedAt, _, hashedAt, hashedRoot, rootedAt, _, slots⟩ :=
    attempts_granted documented search memory
  have hashedGrant : kernel.grants hashed.requests = true := by
    rw [hashedAt]
    exact memory 2 (by omega)
  have rootedGrant : kernel.grants rooted.requests = true := by
    rw [rootedAt]
    exact memory 3 (by omega)
  have treeFails : Container.Fails kernel val hashed .tree ↔
      ∃ entry ∈ m.root.inorder, entry.val = val := by
    rw [tree_fails_iff documented (hashedRoot ▸ search) hashedGrant, hashedRoot]
  have slotsFails : Container.Fails kernel val rooted .slots ↔
      unsignedLong val ∈ m.radixTree ∨ kernel.grants (m.requests + 4) = false := by
    rw [slots_fails_iff rootedGrant, slots, rootedAt]
  have given : ∀ found : Module, kernel.grants found.requests = true →
      (kmalloc kernel found).1 ≠ none := by
    intro found grant
    rw [kmalloc_given grant]
    exact Option.some_ne_none _
  rw [Taken, ← treeFails, ← slotsFails]
  constructor
  · intro premise
    obtain ⟨place, found, member, failing⟩ := premise
    rw [all] at member
    simp only [List.mem_cons, Prod.mk.injEq, List.not_mem_nil, or_false] at member
    rcases member with ⟨rfl, rfl⟩ | ⟨rfl, rfl⟩ | ⟨rfl, rfl⟩ | ⟨rfl, rfl⟩
    · exact absurd failing (given _ (memory 0 (by omega)))
    · exact absurd failing (given _ (by rw [listedAt]; exact memory 1 (by omega)))
    · exact .inl failing
    · exact .inr failing
  · intro premise
    rcases premise with failing | failing
    · exact ⟨.tree, hashed, by rw [all]; simp, failing⟩
    · exact ⟨.slots, rooted, by rw [all]; simp, failing⟩

theorem attempts_harmless (documented : kernel.Documented) {val : Int32} {m found : Module}
    {place : Container} (search : SearchTree m.root)
    (memory : ∀ call < 4, kernel.grants (m.requests + call) = true)
    (member : (place, found) ∈ attempts kernel val Container.order m)
    (failing : place.Fails kernel val found) :
    ∃ err after, place.store kernel val found = some (err, after) ∧ place.Same found after := by
  obtain ⟨listed, hashed, rooted, all, listedAt, listedRoot, hashedAt, hashedRoot, rootedAt,
    rootedSearch, _⟩ := @attempts_granted kernel documented val m search memory
  rw [all] at member
  simp only [List.mem_cons, Prod.mk.injEq, List.not_mem_nil, or_false] at member
  rcases member with ⟨rfl, rfl⟩ | ⟨rfl, rfl⟩ | ⟨rfl, rfl⟩ | ⟨rfl, rfl⟩
  · exact fails_harmless documented search (memory 0 (by omega)) failing
  · exact fails_harmless documented (listedRoot ▸ search)
      (by rw [listedAt]; exact memory 1 (by omega)) failing
  · exact fails_harmless documented (hashedRoot ▸ search)
      (by rw [hashedAt]; exact memory 2 (by omega)) failing
  · exact fails_harmless documented rootedSearch
      (by rw [rootedAt]; exact memory 3 (by omega)) failing

theorem store_grant {val : Int32} {found : Module} (place : Container)
    (kept : place.store kernel val found ≠ none) : kernel.grants found.requests = true := by
  cases grant : kernel.grants found.requests with
  | true => rfl
  | false =>
      have denied : kmalloc kernel found =
          (none, { found with requests := found.requests + 1 }) := by
        rw [kmalloc, grant]
        rfl
      cases place with
      | list => exact absurd (by simp only [Container.store, storeValue, denied]) kept
      | hash => exact absurd (by simp only [Container.store, storeHashValue, denied]) kept
      | tree => exact absurd (by simp only [Container.store, rbTreeInsert, denied]) kept
      | slots => exact absurd (by simp only [Container.store, radixInsert, denied]) kept

theorem storeAll_memory {val : Int32} {m : Module} (kept : storeAll kernel val m ≠ none) :
    ∀ call < 4, kernel.grants (m.requests + call) = true := by
  have zero : kernel.grants m.requests = true := by
    apply store_grant .list
    intro (oops : storeValue kernel val m = none)
    exact kept (by simp only [storeAll, oops])
  let listed := listAddTail ⟨m.requests, val⟩ (granted m)
  have inList : storeValue kernel val m = some (0, listed) := storeValue_given zero
  have one : kernel.grants listed.requests = true := by
    apply store_grant .hash
    intro (oops : storeHashValue kernel val listed = none)
    exact kept (by simp only [storeAll, inList, oops])
  let hashed := hashAdd kernel ⟨m.requests + 1, val⟩ val (granted listed)
  have inTable : storeHashValue kernel val listed = some (0, hashed) := storeHashValue_given one
  have two : kernel.grants hashed.requests = true := by
    apply store_grant .tree
    intro (oops : rbTreeInsert kernel val hashed = none)
    exact kept (by simp only [storeAll, inList, inTable, oops])
  cases inserted : insertRbTree kernel hashed.root ⟨hashed.requests, val⟩ with
  | none =>
      have broken : insertRbTree kernel (granted hashed).root ⟨hashed.requests, val⟩ = none :=
        inserted
      have oops : rbTreeInsert kernel val hashed = none := by
        simp only [rbTreeInsert, kmalloc_given two, broken]
      exact absurd (by simp only [storeAll, inList, inTable, oops]) kept
  | some outcome =>
      obtain ⟨result, root⟩ := outcome
      let rooted : Module := { granted hashed with root := root }
      have inTree : rbTreeInsert kernel val hashed = some (0, rooted) :=
        rbTreeInsert_given two inserted
      have three : kernel.grants rooted.requests = true := by
        apply store_grant .slots
        intro (oops : radixInsert kernel val rooted = none)
        exact kept (by simp only [storeAll, inList, inTable, inTree, oops])
      intro call bound
      interval_cases call
      · exact zero
      · exact one
      · exact two
      · exact three

theorem radixTreeInsert_keeps {index slot : UInt64} {entry : Entry} {m : Module}
    (member : slot ∈ m.radixTree) :
    slot ∈ (radixTreeInsert kernel index entry m).2.radixTree := by
  by_cases present : index ∈ m.radixTree
  · rw [radixTreeInsert_present present]
    exact member
  · cases grant : kernel.grants m.requests with
    | true =>
        rw [radixTreeInsert_granted present grant]
        exact Std.TreeMap.mem_insert.mpr (.inr member)
    | false =>
        rw [radixTreeInsert_denied present grant]
        exact member

theorem hashAdd_keeps {bucket : Bucket} {entry item : Entry} {key : Int32} {m : Module}
    (member : item ∈ m.myHTable bucket) :
    item ∈ (hashAdd kernel entry key m).myHTable bucket := by
  change item ∈ Function.update m.myHTable (kernel.hashMin key)
    (entry :: m.myHTable (kernel.hashMin key)) bucket
  by_cases here : bucket = kernel.hashMin key
  · rw [here, Function.update_self]
    rw [here] at member
    exact List.mem_cons_of_mem _ member
  · rw [Function.update_of_ne here]
    exact member

theorem mem_hashAdd {entry : Entry} {key : Int32} {m : Module} :
    entry ∈ (hashAdd kernel entry key m).myHTable (kernel.hashMin key) := by
  change entry ∈ Function.update m.myHTable (kernel.hashMin key)
    (entry :: m.myHTable (kernel.hashMin key)) (kernel.hashMin key)
  rw [Function.update_self]
  exact List.mem_cons_self

/-- What is in a container stays there while a value is stored. -/
theorem stored_keeps {val other : Int32} {m : Module} {root : RbTree Entry} {entry : Entry}
    (grown : (∃ entry ∈ m.root.inorder, entry.val = other) →
      ∃ entry ∈ root.inorder, entry.val = other)
    (place : Container) (there : place.Has kernel other m) :
    place.Has kernel other (radixTreeInsert kernel (unsignedLong val) entry
      (storedThree kernel val root m)).2 := by
  obtain ⟨slots, requests, frame, _⟩ :=
    @radixTreeInsert_frame kernel (unsignedLong val) entry (storedThree kernel val root m)
  cases place with
  | list =>
      rw [frame]
      obtain ⟨item, member, same⟩ := there
      exact ⟨item, List.mem_append_left _ member, same⟩
  | hash =>
      rw [frame]
      obtain ⟨item, member, same⟩ := there
      exact ⟨item, @hashAdd_keeps kernel _ ⟨m.requests + 1, val⟩ item val m member, same⟩
  | tree =>
      rw [frame]
      exact grown there
  | slots => exact radixTreeInsert_keeps (m := storedThree kernel val root m) there

/-- A value that the tree and the radix tree take is in all containers. -/
theorem stored_has {val : Int32} {m : Module} {root : RbTree Entry} {entry : Entry}
    (slots : unsignedLong val ∉ m.radixTree) (grant : kernel.grants (m.requests + 4) = true)
    (inTree : ∃ entry ∈ root.inorder, entry.val = val) (place : Container) :
    place.Has kernel val (radixTreeInsert kernel (unsignedLong val) entry
      (storedThree kernel val root m)).2 := by
  rw [radixTreeInsert_granted (m := storedThree kernel val root m) slots grant]
  cases place with
  | list => exact ⟨⟨m.requests, val⟩, List.mem_append_right _ List.mem_cons_self, rfl⟩
  | hash => exact ⟨_, @mem_hashAdd kernel ⟨m.requests + 1, val⟩ val m, rfl⟩
  | tree => exact inTree
  | slots => exact Std.TreeMap.mem_insert_self

theorem mem_insert_unsignedLong {slots : Std.TreeMap UInt64 Entry} {entry : Entry}
    {val other : Int32} :
    unsignedLong other ∈ slots.insert (unsignedLong val) entry ↔
      unsignedLong other ∈ slots ∨ other = val := by
  rw [Std.TreeMap.mem_insert, Std.LawfulEqCmp.compare_eq_iff_eq]
  constructor
  · intro premise
    rcases premise with same | earlier
    · exact .inr (unsignedLong_injective same).symm
    · exact .inl earlier
  · intro premise
    rcases premise with earlier | rfl
    · exact .inr earlier
    · exact .inl rfl

/-- What storing a value keeps and, unless it is taken, adds. -/
theorem storeAll_search (documented : kernel.Documented) {val : Int32} {m : Module}
    (search : SearchTree m.root)
    (memory : ∀ call < 4, kernel.grants (m.requests + call) = true) :
    ∃ after, storeAll kernel val m = some (0, after) ∧ SearchTree after.root ∧
      (∀ other (place : Container), place.Has kernel other m → place.Has kernel other after) ∧
      (¬ Taken kernel val m →
        (∀ place : Container, place.Has kernel val after) ∧
        after.requests = m.requests + 5 ∧
        (∀ other, (∃ entry ∈ after.root.inorder, entry.val = other) ↔
          (∃ entry ∈ m.root.inorder, entry.val = other) ∨ other = val) ∧
        (∀ other, unsignedLong other ∈ after.radixTree ↔
          unsignedLong other ∈ m.radixTree ∨ other = val)) := by
  obtain ⟨result, root, inserted, sorted, _, _, members⟩ :=
    insertRbTree_search documented.insertColor_inorder ⟨m.requests + 2, val⟩ search
  let linked := storedThree kernel val root m
  refine ⟨_, storeAll_eq memory inserted, ?_, ?_, ?_⟩
  · obtain ⟨slots, requests, frame, _⟩ :=
      @radixTreeInsert_frame kernel (unsignedLong val) ⟨m.requests + 3, val⟩ linked
    rw [frame]
    exact sorted
  · intro other place there
    exact stored_keeps (fun earlier => (members other).mpr (.inl earlier)) place there
  · intro free
    have absent : unsignedLong val ∉ linked.radixTree := fun present => free (.inr (.inl present))
    have grant : kernel.grants linked.requests = true := by
      cases node : kernel.grants linked.requests with
      | true => rfl
      | false => exact absurd (.inr (.inr node)) free
    refine ⟨stored_has absent grant ((members val).mpr (.inr rfl)), ?_⟩
    rw [radixTreeInsert_granted absent grant]
    exact ⟨rfl, members, fun other => mem_insert_unsignedLong⟩

/-! ### The condition, value by value -/

theorem checkedValues_cons {val : Int32} {values : List Int32} {rejected : Option Errno}
    (further : values ≠ [] ∨ rejected = none) :
    checkedValues (val :: values) rejected = val :: checkedValues values rejected := by
  cases rejected with
  | none => rfl
  | some error =>
      have more : values ≠ [] := further.resolve_right (Option.some_ne_none error)
      exact List.dropLast_cons_of_ne_nil more

theorem Unhindered.first {val : Int32} {values checked : List Int32} {m : Module}
    (unhindered : Unhindered kernel m (val :: values) (val :: checked)) :
    ¬ Taken kernel val m := by
  obtain ⟨noEntry, noSlot⟩ := unhindered.absent val List.mem_cons_self
  intro premise
  rcases premise with ⟨entry, member, same⟩ | present | denied
  · exact noEntry entry member same
  · exact noSlot present
  · have node : kernel.grants (m.requests + 4) = true := unhindered.nodes 0 (Nat.succ_pos _)
    rw [denied] at node
    cases node

/-- After the stores of a free value, the condition is that of the values left. -/
theorem unhindered_cons_iff {val : Int32} {values checked : List Int32} {m after : Module}
    (memory : ∀ call < 4, kernel.grants (m.requests + call) = true)
    (free : ¬ Taken kernel val m) (requests : after.requests = m.requests + 5)
    (entries : ∀ other, (∃ entry ∈ after.root.inorder, entry.val = other) ↔
      (∃ entry ∈ m.root.inorder, entry.val = other) ∨ other = val)
    (slots : ∀ other, unsignedLong other ∈ after.radixTree ↔
      unsignedLong other ∈ m.radixTree ∨ other = val) :
    Unhindered kernel m (val :: values) (val :: checked) ↔
      Unhindered kernel after values checked := by
  have shifted : ∀ index call,
      after.requests + 5 * index + call = m.requests + 5 * (index + 1) + call := by
    intro index call
    omega
  constructor
  · intro whole
    obtain ⟨notAgain, distinct⟩ := List.nodup_cons.mp whole.distinct
    refine ⟨?_, ?_, distinct, ?_⟩
    · intro index inRange call bound
      rw [shifted]
      exact whole.memory (index + 1) (Nat.succ_lt_succ inRange) call bound
    · intro index inRange
      rw [shifted]
      exact whole.nodes (index + 1) (Nat.succ_lt_succ inRange)
    · intro other member
      obtain ⟨noEntry, noSlot⟩ := whole.absent other (List.mem_cons_of_mem _ member)
      have different : other ≠ val := by
        intro same
        subst same
        exact notAgain member
      constructor
      · intro entry inTree same
        rcases (entries other).mp ⟨entry, inTree, same⟩ with ⟨earlier, there, same⟩ | equal
        · exact noEntry earlier there same
        · exact different equal
      · intro present
        rcases (slots other).mp present with there | equal
        · exact noSlot there
        · exact different equal
  · intro left
    have node : kernel.grants (m.requests + 4) = true := by
      cases grant : kernel.grants (m.requests + 4) with
      | true => rfl
      | false => exact absurd (.inr (.inr grant)) free
    refine ⟨?_, ?_, List.nodup_cons.mpr ⟨?_, left.distinct⟩, ?_⟩
    · intro index inRange call bound
      cases index with
      | zero => exact memory call bound
      | succ index =>
          rw [← shifted]
          exact left.memory index (Nat.lt_of_succ_lt_succ inRange) call bound
    · intro index inRange
      cases index with
      | zero => exact node
      | succ index =>
          rw [← shifted]
          exact left.nodes index (Nat.lt_of_succ_lt_succ inRange)
    · intro again
      exact (left.absent val again).2 ((slots val).mpr (.inr rfl))
    · intro other member
      rcases List.mem_cons.mp member with rfl | later
      · exact ⟨fun entry there same => free (.inl ⟨entry, there, same⟩),
          fun present => free (.inr (.inl present))⟩
      · obtain ⟨noEntry, noSlot⟩ := left.absent other later
        constructor
        · intro entry there same
          obtain ⟨kept, inTree, equal⟩ := (entries other).mpr (.inl ⟨entry, there, same⟩)
          exact noEntry kept inTree equal
        · intro present
          exact noSlot ((slots other).mpr (.inl present))

theorem unhindered_nil (m : Module) : Unhindered kernel m [] [] :=
  ⟨fun _ inRange => absurd inRange (Nat.not_lt_zero _),
    fun _ inRange => absurd inRange (Nat.not_lt_zero _), List.nodup_nil,
    fun _ member => absurd member List.not_mem_nil⟩

theorem unhindered_last {val : Int32} {m : Module}
    (memory : ∀ call < 4, kernel.grants (m.requests + call) = true) :
    Unhindered kernel m [val] [] := by
  refine ⟨?_, fun _ inRange => absurd inRange (Nat.not_lt_zero _), List.nodup_nil,
    fun _ member => absurd member List.not_mem_nil⟩
  intro index inRange call bound
  have zero : index = 0 := Nat.lt_one_iff.mp inRange
  subst zero
  exact memory call bound

/-! ### The loop -/

theorem recordedLoop_accepted {token : List Char} {rest : List (List Char)} {val : Int32}
    {m after : Module} (nonempty : token ≠ []) (accepted : kernel.kstrtoint token = .ok val)
    (storing : storeAll kernel val m = some (0, after)) (err : Int) :
    recordedLoop kernel (token :: rest) err m =
      ((val, m) :: (recordedLoop kernel rest 0 after).1, (recordedLoop kernel rest 0 after).2) := by
  simp only [recordedLoop, if_neg nonempty, accepted, storing, ne_eq, not_true_eq_false, if_false]

theorem recordedLoop_nothing {tokens : List (List Char)} (err : Int) (m : Module)
    (none : (acceptedTokens kernel tokens).1 = []) :
    recordedLoop kernel tokens err m =
      ([], some ((acceptedTokens kernel tokens).2.elim err Errno.code, m)) := by
  induction tokens with
  | nil => rfl
  | cons token rest ih =>
      simp only [acceptedTokens, recordedLoop] at none ⊢
      by_cases blank : token = []
      · simp only [if_pos blank] at none ⊢
        exact ih none
      · simp only [if_neg blank] at none ⊢
        cases number : kernel.kstrtoint token with
        | error error => rfl
        | ok val =>
            rw [number] at none
            exact absurd none (List.cons_ne_nil _ _)

theorem recordedLoop_something {tokens : List (List Char)} (err : Int) (m : Module)
    (nothing : (recordedLoop kernel tokens err m).1 = []) :
    (acceptedTokens kernel tokens).1 = [] := by
  induction tokens with
  | nil => rfl
  | cons token rest ih =>
      simp only [acceptedTokens, recordedLoop] at nothing ⊢
      by_cases blank : token = []
      · simp only [if_pos blank] at nothing ⊢
        exact ih nothing
      · simp only [if_neg blank] at nothing ⊢
        cases number : kernel.kstrtoint token with
        | error error => rfl
        | ok val =>
            simp only [number] at nothing
            split at nothing
            · exact absurd nothing (List.cons_ne_nil _ _)
            · split at nothing
              · exact absurd nothing (List.cons_ne_nil _ _)
              · exact absurd nothing (List.cons_ne_nil _ _)

theorem recordedLoop_keeps (documented : kernel.Documented) {tokens : List (List Char)}
    {err code : Int} {m after : Module} (search : SearchTree m.root)
    (ended : (recordedLoop kernel tokens err m).2 = some (code, after)) (other : Int32)
    (place : Container) (there : place.Has kernel other m) : place.Has kernel other after := by
  induction tokens generalizing err m with
  | nil =>
      cases ended
      exact there
  | cons token rest ih =>
      by_cases blank : token = []
      · rw [recordedLoop, if_pos blank] at ended
        exact ih search ended there
      · cases number : kernel.kstrtoint token with
        | error error =>
            simp only [recordedLoop, if_neg blank, number] at ended
            cases ended
            exact there
        | ok val =>
            have kept : storeAll kernel val m ≠ none := by
              intro oops
              simp only [recordedLoop, if_neg blank, number, oops] at ended
              cases ended
            obtain ⟨between, storing, sorted, keeps, _⟩ :=
              @storeAll_search kernel documented val m search (storeAll_memory kept)
            rw [recordedLoop_accepted blank number storing] at ended
            exact ih sorted ended (keeps other place there)

theorem stops_nil (code : Int) : Stops kernel [] code := by
  intro earlier val before later split
  exact absurd split.symm (by simp)

theorem stops_cons_iff {val : Int32} {before : Module} {rounds : List (Int32 × Module)}
    {code : Int} :
    Stops kernel ((val, before) :: rounds) code ↔
      (∀ place found, (place, found) ∈ attempts kernel val Container.order before →
        place.Fails kernel val found →
          (∃ err after, place.store kernel val found = some (err, after) ∧
            place.Same found after) ∧ rounds = [] ∧ code ≠ 0) ∧
      Stops kernel rounds code := by
  constructor
  · intro stops
    constructor
    · exact stops [] val before rounds rfl
    · intro earlier other found later split
      exact stops ((val, before) :: earlier) other found later (by rw [split]; rfl)
  · rintro ⟨first, rest⟩ earlier other found later split
    cases earlier with
    | nil =>
        cases split
        exact first
    | cons round earlier =>
        obtain ⟨_, tail⟩ := List.cons.inj split
        exact rest earlier other found later tail

def LoopReports (kernel : Kernel) (tokens : List (List Char)) (m : Module) : Prop :=
  ∃ code after, (recordedLoop kernel tokens 0 m).2 = some (code, after) ∧
    Stops kernel (recordedLoop kernel tokens 0 m).1 code ∧
    (code = 0 → (acceptedTokens kernel tokens).2 = none ∧
      ∀ val ∈ (acceptedTokens kernel tokens).1, ∀ place : Container, place.Has kernel val after)

/-- A value that is taken goes unreported, unless the parser ends at the next token for
another reason. -/
theorem loopReports_taken (documented : kernel.Documented) {token : List Char}
    {rest : List (List Char)} {val : Int32} {m after : Module} (search : SearchTree m.root)
    (memory : ∀ call < 4, kernel.grants (m.requests + call) = true) (nonempty : token ≠ [])
    (accepted : kernel.kstrtoint token = .ok val)
    (storing : storeAll kernel val m = some (0, after)) (taken : Taken kernel val m) :
    LoopReports kernel (token :: rest) m ↔
      (acceptedTokens kernel rest).1 = [] ∧ (acceptedTokens kernel rest).2 ≠ none := by
  obtain ⟨place, found, attempted, failing⟩ :=
    (attempts_fail_iff documented search memory).mpr taken
  unfold LoopReports
  rw [recordedLoop_accepted nonempty accepted storing]
  constructor
  · intro premise
    obtain ⟨code, last, ended, stops, _⟩ := premise
    obtain ⟨_, nothing, failed⟩ := (stops_cons_iff.mp stops).1 place found attempted failing
    have none := recordedLoop_something 0 after nothing
    refine ⟨none, ?_⟩
    intro allAccepted
    rw [recordedLoop_nothing 0 after none, allAccepted] at ended
    cases ended
    exact failed rfl
  · intro premise
    obtain ⟨none, rejected⟩ := premise
    obtain ⟨error, isError⟩ := Option.ne_none_iff_exists'.mp rejected
    rw [recordedLoop_nothing 0 after none, isError]
    refine ⟨error.code, after, rfl, ?_, fun zero => absurd zero error.code_ne_zero⟩
    apply stops_cons_iff.mpr
    refine ⟨?_, stops_nil _⟩
    intro place found attempted failing
    exact ⟨attempts_harmless documented search memory attempted failing, rfl,
      error.code_ne_zero⟩

/-- A free value is stored, and the rest decides. -/
theorem loopReports_free (documented : kernel.Documented) {token : List Char}
    {rest : List (List Char)} {val : Int32} {m after : Module} (search : SearchTree m.root)
    (memory : ∀ call < 4, kernel.grants (m.requests + call) = true) (nonempty : token ≠ [])
    (accepted : kernel.kstrtoint token = .ok val)
    (storing : storeAll kernel val m = some (0, after)) (sorted : SearchTree after.root)
    (stored : ∀ place : Container, place.Has kernel val after) (free : ¬ Taken kernel val m) :
    LoopReports kernel (token :: rest) m ↔ LoopReports kernel rest after := by
  have noFailure : ∀ place found, (place, found) ∈ attempts kernel val Container.order m →
      ¬ place.Fails kernel val found := by
    intro place found attempted failing
    exact free ((attempts_fail_iff documented search memory).mp ⟨place, found, attempted, failing⟩)
  have tokens : acceptedTokens kernel (token :: rest) =
      (val :: (acceptedTokens kernel rest).1, (acceptedTokens kernel rest).2) := by
    simp only [acceptedTokens, if_neg nonempty, accepted]
  unfold LoopReports
  rw [recordedLoop_accepted nonempty accepted storing, tokens]
  constructor
  · intro premise
    obtain ⟨code, last, ended, stops, whole⟩ := premise
    refine ⟨code, last, ended, (stops_cons_iff.mp stops).2, ?_⟩
    intro zero
    obtain ⟨none, all⟩ := whole zero
    exact ⟨none, fun other member => all other (List.mem_cons_of_mem _ member)⟩
  · intro premise
    obtain ⟨code, last, ended, stops, whole⟩ := premise
    refine ⟨code, last, ended, stops_cons_iff.mpr ⟨?_, stops⟩, ?_⟩
    · intro place found attempted failing
      exact absurd failing (noFailure place found attempted)
    · intro zero
      obtain ⟨none, all⟩ := whole zero
      refine ⟨none, ?_⟩
      intro other member place
      rcases List.mem_cons.mp member with rfl | later
      · exact recordedLoop_keeps documented sorted ended other place (stored place)
      · exact all other later place

/-- The last value before a token that is rejected is reported in any case. -/
theorem loopReports_last (documented : kernel.Documented) {token : List Char}
    {rest : List (List Char)} {val : Int32} {m after : Module} (search : SearchTree m.root)
    (memory : ∀ call < 4, kernel.grants (m.requests + call) = true) (nonempty : token ≠ [])
    (accepted : kernel.kstrtoint token = .ok val)
    (storing : storeAll kernel val m = some (0, after)) (sorted : SearchTree after.root)
    (stored : ¬ Taken kernel val m → ∀ place : Container, place.Has kernel val after)
    (noMore : (acceptedTokens kernel rest).1 = [])
    (rejected : (acceptedTokens kernel rest).2 ≠ none) : LoopReports kernel (token :: rest) m := by
  by_cases taken : Taken kernel val m
  · exact (loopReports_taken documented search memory nonempty accepted storing taken).mpr
      ⟨noMore, rejected⟩
  · obtain ⟨error, isError⟩ := Option.ne_none_iff_exists'.mp rejected
    apply (loopReports_free documented search memory nonempty accepted storing sorted
      (stored taken) taken).mpr
    refine ⟨error.code, after, ?_, ?_, fun zero => absurd zero error.code_ne_zero⟩
    · rw [recordedLoop_nothing 0 after noMore, isError]
      rfl
    · rw [recordedLoop_nothing 0 after noMore]
      exact stops_nil _

/-- One value, when the rest of the tokens is settled. -/
theorem loopReports_value (documented : kernel.Documented) {token : List Char}
    {rest : List (List Char)} {val : Int32} {m : Module} (search : SearchTree m.root)
    (nonempty : token ≠ []) (accepted : kernel.kstrtoint token = .ok val)
    (settled : ∀ {after : Module}, SearchTree after.root →
      (LoopReports kernel rest after ↔
        Unhindered kernel after (acceptedTokens kernel rest).1
          (checkedValues (acceptedTokens kernel rest).1 (acceptedTokens kernel rest).2))) :
    LoopReports kernel (token :: rest) m ↔
      Unhindered kernel m (val :: (acceptedTokens kernel rest).1)
        (checkedValues (val :: (acceptedTokens kernel rest).1)
          (acceptedTokens kernel rest).2) := by
  by_cases memory : ∀ call < 4, kernel.grants (m.requests + call) = true
  · obtain ⟨after, storing, sorted, _, whenFree⟩ :=
      @storeAll_search kernel documented val m search memory
    by_cases last : (acceptedTokens kernel rest).1 = [] ∧ (acceptedTokens kernel rest).2 ≠ none
    · obtain ⟨noMore, rejected⟩ := last
      have reports := loopReports_last documented search memory nonempty accepted storing sorted
        (fun free => (whenFree free).1) noMore rejected
      obtain ⟨error, isError⟩ := Option.ne_none_iff_exists'.mp rejected
      rw [noMore, isError]
      exact iff_of_true reports (unhindered_last memory)
    · have further : (acceptedTokens kernel rest).1 ≠ [] ∨
          (acceptedTokens kernel rest).2 = none := by
        by_cases more : (acceptedTokens kernel rest).1 = []
        · exact .inr (not_not.mp (fun rejected => last ⟨more, rejected⟩))
        · exact .inl more
      rw [checkedValues_cons further]
      by_cases taken : Taken kernel val m
      · have unreported : ¬ LoopReports kernel (token :: rest) m := by
          rw [loopReports_taken documented search memory nonempty accepted storing taken]
          exact last
        exact iff_of_false unreported (fun unhindered => unhindered.first taken)
      · obtain ⟨stored, requests, entries, slots⟩ := whenFree taken
        rw [loopReports_free documented search memory nonempty accepted storing sorted stored
          taken, settled sorted]
        exact (unhindered_cons_iff memory taken requests entries slots).symm
  · have unreported : ¬ LoopReports kernel (token :: rest) m := by
      intro premise
      obtain ⟨code, last, ended, _⟩ := premise
      have oops : storeAll kernel val m = none := by
        by_contra kept
        exact memory (storeAll_memory kept)
      simp only [recordedLoop, if_neg nonempty, accepted, oops] at ended
      cases ended
    refine iff_of_false unreported ?_
    intro unhindered
    apply memory
    intro call bound
    exact unhindered.memory 0 (Nat.succ_pos _) call bound

theorem loopReports_iff (documented : kernel.Documented) {tokens : List (List Char)}
    {m : Module} (search : SearchTree m.root) :
    LoopReports kernel tokens m ↔
      Unhindered kernel m (acceptedTokens kernel tokens).1
        (checkedValues (acceptedTokens kernel tokens).1 (acceptedTokens kernel tokens).2) := by
  induction tokens generalizing m with
  | nil =>
      refine iff_of_true ⟨0, m, rfl, stops_nil 0, ?_⟩ (unhindered_nil m)
      intro _
      exact ⟨rfl, fun _ member => absurd member List.not_mem_nil⟩
  | cons token rest ih =>
      by_cases blank : token = []
      · simp only [LoopReports, recordedLoop, acceptedTokens, if_pos blank]
        exact ih search
      · cases number : kernel.kstrtoint token with
        | error error =>
            simp only [LoopReports, recordedLoop, acceptedTokens, if_neg blank, number]
            refine iff_of_true ⟨error.code, m, rfl, stops_nil _, ?_⟩ (unhindered_nil m)
            intro zero
            exact absurd zero error.code_ne_zero
        | ok val =>
            have accepted : acceptedTokens kernel (token :: rest) =
                (val :: (acceptedTokens kernel rest).1, (acceptedTokens kernel rest).2) := by
              simp only [acceptedTokens, if_neg blank, number]
            rw [accepted]
            exact loopReports_value documented search blank number ih

/-! ### The parser -/

theorem parsedTokens_acceptedTokens (tokens : List (List Char)) :
    parsedTokens kernel tokens =
      match (acceptedTokens kernel tokens).2 with
      | none => .ok (acceptedTokens kernel tokens).1
      | some error => .error error := by
  induction tokens with
  | nil => rfl
  | cons token rest ih =>
      rw [acceptedTokens]
      by_cases blank : token = []
      · rw [if_pos blank, blank, parsedTokens_blank, ih]
      · rw [if_neg blank]
        cases number : kernel.kstrtoint token with
        | error error => exact parsedTokens_rejected rest blank number
        | ok val =>
            rw [parsedTokens_accepted rest blank number, ih]
            cases (acceptedTokens kernel rest).2 with
            | none => rfl
            | some error => rfl

theorem parsedTokens_ok_iff (tokens : List (List Char)) (values : List Int32) :
    parsedTokens kernel tokens = .ok values ↔
      (acceptedTokens kernel tokens).2 = none ∧ (acceptedTokens kernel tokens).1 = values := by
  rw [parsedTokens_acceptedTokens]
  cases (acceptedTokens kernel tokens).2 with
  | none => simp
  | some error => simp

theorem reports_loop {m : Module} {text : List Char} (given : m.intStr = some text)
    (grant : kernel.grants m.requests = true) :
    Reports kernel m ↔ LoopReports kernel (text.splitOn ',') (granted m) := by
  have head : parseLoop kernel (some text) 0 (granted m) =
      (recordedLoop kernel (text.splitOn ',') 0 (granted m)).2 :=
    (recordedLoop_parseLoop kernel rfl 0 (granted m)).symm
  have rounds : storedRounds kernel m =
      (recordedLoop kernel (text.splitOn ',') 0 (granted m)).1 := by
    simp only [storedRounds, given, kmalloc_given grant]
  unfold Reports LoopReports
  rw [rounds]
  constructor
  · intro premise
    obtain ⟨code, after, ended, stops, whole⟩ := premise
    simp only [parseParams, given, kmalloc_given grant, head] at ended
    cases looped : (recordedLoop kernel (text.splitOn ',') 0 (granted m)).2 with
    | none =>
        rw [looped] at ended
        cases ended
    | some outcome =>
        obtain ⟨err, last⟩ := outcome
        rw [looped] at ended
        cases ended
        refine ⟨code, last, rfl, stops, ?_⟩
        intro zero
        obtain ⟨values, parsed, all⟩ := whole zero text given
        obtain ⟨none, rfl⟩ := (parsedTokens_ok_iff _ values).mp parsed
        exact ⟨none, all⟩
  · intro premise
    obtain ⟨code, last, ended, stops, whole⟩ := premise
    refine ⟨code, kfree m.requests last, ?_, stops, ?_⟩
    · simp only [parseParams, given, kmalloc_given grant, head, ended]
    · intro zero same parameter
      cases given.symm.trans parameter
      obtain ⟨none, all⟩ := whole zero
      exact ⟨_, (parsedTokens_ok_iff _ _).mpr ⟨none, rfl⟩, all⟩

theorem reports_uncopied {m : Module}
    (uncopied : m.intStr = none ∨ kernel.grants m.requests = false) : Reports kernel m := by
  have failed : Errno.enomem.code = 0 → False := Errno.code_ne_zero .enomem
  cases given : m.intStr with
  | none =>
      refine ⟨Errno.enomem.code, m, by simp only [parseParams, given], ?_,
        fun zero => (failed zero).elim⟩
      simp only [storedRounds, given]
      exact stops_nil _
  | some text =>
      have refused : kernel.grants m.requests = false := by
        rcases uncopied with missing | refused
        · rw [given] at missing
          cases missing
        · exact refused
      have denied : kmalloc kernel m = (none, { m with requests := m.requests + 1 }) := by
        rw [kmalloc, refused]
        rfl
      refine ⟨Errno.enomem.code, { m with requests := m.requests + 1 }, ?_, ?_,
        fun zero => (failed zero).elim⟩
      · simp only [parseParams, given, denied]
      · simp only [storedRounds, given, denied]
        exact stops_nil _

/-- Failed insertions are all reported if, and only if, there is none to report: the parameter
is missing or cannot be copied, or every entry has its memory and every value is new.  The
last value before a token that is rejected may be an old one. -/
theorem parseParams_reports_iff (documented : kernel.Documented) {m : Module}
    (search : SearchTree m.root) :
    Reports kernel m ↔
      ∀ text, m.intStr = some text → kernel.grants m.requests = true →
        Unhindered kernel (granted m) (acceptedTokens kernel (text.splitOn ',')).1
          (checkedValues (acceptedTokens kernel (text.splitOn ',')).1
            (acceptedTokens kernel (text.splitOn ',')).2) := by
  constructor
  · intro reports text given grant
    have sorted : SearchTree (granted m).root := search
    exact (loopReports_iff documented sorted).mp ((reports_loop given grant).mp reports)
  · intro general
    by_cases uncopied : m.intStr = none ∨ kernel.grants m.requests = false
    · exact reports_uncopied uncopied
    · obtain ⟨present, notDenied⟩ := not_or.mp uncopied
      obtain ⟨text, given⟩ := Option.ne_none_iff_exists'.mp present
      have grant : kernel.grants m.requests = true := Bool.eq_true_of_not_eq_false notDenied
      have sorted : SearchTree (granted m).root := search
      exact (reports_loop given grant).mpr
        ((loopReports_iff documented sorted).mpr (general text given grant))

end Documented

/-- With the parameter `1,1` the second insert into the tree and into the radix tree fails, and
the parser returns 0. -/
theorem parseParams_reports_fails : ¬ Reports plainKernel (loaded "1,1") := by
  have search : SearchTree (granted (loaded "1,1")).root := List.Pairwise.nil
  rw [reports_loop (m := loaded "1,1") rfl rfl, loopReports_iff plainKernel_documented search]
  intro unhindered
  exact absurd unhindered.distinct (by decide)

theorem parseParams_reports_iff_distinct :
    Reports plainKernel (loaded "4,5,5,x") ↔
      ∀ text, (loaded "4,5,5,x").intStr = some text →
        plainKernel.grants (loaded "4,5,5,x").requests = true →
        Unhindered plainKernel (granted (loaded "4,5,5,x"))
          (acceptedTokens plainKernel (text.splitOn ',')).1
          (checkedValues (acceptedTokens plainKernel (text.splitOn ',')).1
            (acceptedTokens plainKernel (text.splitOn ',')).2) :=
  parseParams_reports_iff plainKernel_documented List.Pairwise.nil

end LKP.Proj2
