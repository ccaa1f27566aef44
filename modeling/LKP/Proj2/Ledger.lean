import LKP.Proj2.Reads

/-
The ledger of `proj2.c`: which of the addresses it got from the allocator it gives
back.

A call frees the copy of the parameter and the entries that the list, the hash
table and the tree hold.  It keeps `temp2`, the entries in the radix tree, and those
that a tree refused.
-/

set_option autoImplicit false

namespace LKP.Proj2

open RedBlackTree

structure Balanced (events : List MemoryEvent) : Prop where
  returned : ∀ address, .alloc address ∈ events → events.count (.free address) = 1
  own : ∀ address, .free address ∈ events → .alloc address ∈ events

theorem not_balanced {events : List MemoryEvent} {address : Nat}
    (taken : .alloc address ∈ events) (kept : .free address ∉ events) : ¬ Balanced events := by
  intro balanced
  have once := balanced.returned address taken
  rw [List.count_eq_zero_of_not_mem kept] at once
  omega

/-! ### While parsing -/

def Entered (m : Module) (entry : Entry) : Prop :=
  entry ∈ m.mylist ∨ entry ∈ hashEntries m.myHTable ∨ entry ∈ m.root.inorder

/-- What holds after these values are stored: every entry was asked for after `start`, four
for each value, and none has been freed. -/
structure Accounted (start : Module) (values : List Int32) (m : Module) : Prop where
  stored : Stored values m
  later : start.requests ≤ m.requests
  newer : ∀ entry, Entered m entry → start.requests ≤ entry.address
  ledger : ∃ taken : List Nat, m.ledger = start.ledger ++ taken.map .alloc ∧
    taken.length = 4 * values.length

theorem Module.Empty.accounted {m : Module} (empty : m.Empty) : Accounted m [] m := by
  constructor
  · exact empty.stored
  · exact Nat.le_refl _
  · rintro entry (inList | inTable | inTree)
    · rw [empty.list] at inList
      cases inList
    · obtain ⟨bucket, _, member⟩ := List.mem_flatMap.mp inTable
      rw [empty.hash] at member
      cases member
    · rw [empty.tree] at inTree
      cases inTree
  · exact ⟨[], by simp, rfl⟩

section Granted

variable {kernel : Kernel} (documented : kernel.Documented)
  (grants : ∀ request, kernel.grants request = true)

include documented grants

theorem Accounted.storeAll {start m : Module} {values : List Int32}
    (accounted : Accounted start values m) (val : Int32) :
    ∃ after, storeAll kernel val m = some (0, after) ∧
      Accounted start (values ++ [val]) after := by
  obtain ⟨after, root, storing, stored, same, inRoot⟩ :=
    storeAll_stored grants documented val accounted.stored
  obtain ⟨slots, requests, frame, more⟩ := @radixTreeInsert_frame kernel (unsignedLong val)
    ⟨m.requests + 3, val⟩ (storedThree kernel val root m)
  rw [frame] at same
  have later := accounted.later
  have fresh : ∀ call : Nat, start.requests ≤ m.requests + call := fun call => by omega
  refine ⟨after, storing, stored, ?_, ?_, ?_⟩
  · have counted : m.requests + 4 ≤ requests := more
    rw [same]
    change start.requests ≤ requests
    omega
  · subst same
    rintro entry (inList | inTable | inTree)
    · rcases List.mem_append.mp inList with earlier | new
      · exact accounted.newer entry (.inl earlier)
      · rw [List.mem_singleton.mp new]
        exact fresh 0
    · have added := flatMap_update_perm m.myHTable ⟨m.requests + 1, val⟩
        (List.nodup_finRange (2 ^ 3)) (List.mem_finRange (kernel.hashMin val))
      rcases List.mem_cons.mp (added.mem_iff.mp inTable) with rfl | earlier
      · exact fresh 1
      · exact accounted.newer entry (.inr (.inl earlier))
    · rcases inRoot entry inTree with rfl | earlier
      · exact fresh 2
      · exact accounted.newer entry (.inr (.inr earlier))
  · obtain ⟨taken, ledger, counted⟩ := accounted.ledger
    refine ⟨taken ++ [m.requests, m.requests + 1, m.requests + 2, m.requests + 3], ?_, ?_⟩
    · rw [same]
      change m.ledger ++ _ = _
      rw [ledger, List.map_append, List.append_assoc]
      rfl
    · rw [List.length_append, List.length_append, counted]
      simp only [List.length_cons, List.length_nil]
      omega

/-! ### One call -/

omit documented in
theorem called_cleanup {m filled after : Module} {text : List Char} {err code : Int}
    {shown : String} {held : List Int32} (given : m.intStr = some text)
    (parsing : parseParams kernel (granted m) = some (err, filled)) (stored : Stored held filled)
    (called : proj2ProcShow kernel m = some (code, shown, after)) :
    cleanup kernel filled = some after := by
  have sameText : (granted m).intStr = some text := given
  obtain ⟨walked, _, _, slotsLine⟩ := shown_lines stored
  simp only [proj2ProcShow, kmalloc_granted grants, sameText, parsing] at called
  cases cleaned : cleanup kernel filled with
  | none =>
      by_cases failed : err ≠ 0
      · simp only [if_pos failed, cleaned] at called
        cases called
      · simp only [if_neg failed, walked, slotsLine, cleaned] at called
        cases called
  | some last =>
      by_cases failed : err ≠ 0
      · simp only [if_pos failed, cleaned] at called
        cases called
        rfl
      · simp only [if_neg failed, walked, slotsLine, cleaned] at called
        cases called
        rfl

/-- What a call has done to the ledger in the end, with what the parser left. -/
theorem parsed_events {m filled after : Module} {text : List Char} {err code : Int}
    {shown : String} {held : List Int32} (given : m.intStr = some text)
    (parsing : parseParams kernel (granted m) = some (err, kfree (m.requests + 1) filled))
    (accounted : Accounted (granted (granted m)) held filled)
    (called : proj2ProcShow kernel m = some (code, shown, after)) :
    ∃ taken : List Nat, taken.length = 4 * held.length ∧ after.requests = filled.requests ∧
      after.ledger = m.ledger ++ ([.alloc m.requests, .alloc (m.requests + 1)] ++
        taken.map .alloc ++ [.free (m.requests + 1)] ++ frees filled.mylist ++
        frees (hashEntries filled.myHTable) ++ frees filled.root.inorder) := by
  have stored := accounted.stored.kfree (m.requests + 1)
  have cleaned := called_cleanup grants given parsing stored called
  obtain ⟨slots, all, _⟩ := cleanup_eq documented stored.tree.search stored.tree.redBlack
  obtain ⟨taken, ledger, counted⟩ := accounted.ledger
  have same := Option.some.inj (cleaned.symm.trans all)
  refine ⟨taken, counted, ?_, ?_⟩
  · rw [same]
    rfl
  · rw [same]
    change (filled.ledger ++ [.free (m.requests + 1)]) ++ frees filled.mylist ++
      frees (hashEntries filled.myHTable) ++ frees filled.root.inorder = _
    rw [ledger]
    simp only [granted, List.append_assoc, List.cons_append, List.nil_append]

/-- The events of a call with a parameter: of what is handed out, `temp2` comes first; of what
is given back, all is younger. -/
theorem proj2ProcShow_events {m after : Module} {text : List Char} {code : Int} {shown : String}
    (empty : m.Empty) (given : m.intStr = some text)
    (called : proj2ProcShow kernel m = some (code, shown, after)) :
    ∃ (filled : Module) (held : List Int32) (taken : List Nat),
      Accounted (granted (granted m)) held filled ∧ after.requests = filled.requests ∧
      after.ledger = m.ledger ++ ([.alloc m.requests, .alloc (m.requests + 1)] ++
        taken.map .alloc ++ [.free (m.requests + 1)] ++ frees filled.mylist ++
        frees (hashEntries filled.myHTable) ++ frees filled.root.inorder) := by
  have sameText : (granted m).intStr = some text := given
  have start : Accounted (granted (granted m)) [] (granted (granted m)) :=
    empty.granted.granted.accounted
  obtain ⟨err, held, filled, parsing, accounted, _⟩ :=
    parseParams_rule grants (fun values val m holds => holds.storeAll documented grants val)
      sameText start
  obtain ⟨taken, _, requests, ledger⟩ :=
    parsed_events documented grants given parsing accounted called
  exact ⟨filled, held, taken, accounted, requests, ledger⟩

/-- What one call gives back was handed out after `temp2`. -/
theorem proj2ProcShow_keeps {m after : Module} {code : Int} {shown : String} (empty : m.Empty)
    (called : proj2ProcShow kernel m = some (code, shown, after)) :
    ∃ events, after.ledger = m.ledger ++ events ∧ .alloc m.requests ∈ events ∧
      (∀ address, .free address ∈ events → m.requests < address) ∧
      m.requests < after.requests := by
  cases given : m.intStr with
  | none =>
      simp only [proj2ProcShow, kmalloc_granted grants, granted, given, printk] at called
      cases called
      refine ⟨[.alloc m.requests], rfl, List.mem_cons_self, ?_, Nat.lt_succ_self _⟩
      intro address freed
      simp at freed
  | some text =>
      obtain ⟨filled, held, taken, accounted, requests, ledger⟩ :=
        proj2ProcShow_events documented grants empty given called
      have later : m.requests + 2 ≤ filled.requests := accounted.later
      refine ⟨_, ledger, by simp, ?_, by omega⟩
      intro address freed
      have younger : ∀ entries : List Entry, (∀ entry ∈ entries, Entered filled entry) →
          .free address ∈ frees entries → m.requests < address := by
        intro entries entered member
        obtain ⟨entry, inside, same⟩ := List.mem_map.mp member
        cases same
        have newer : m.requests + 2 ≤ entry.address :=
          accounted.newer entry (entered entry inside)
        omega
      simp only [List.mem_append] at freed
      rcases freed with ((((first | taking) | copy) | inList) | inTable) | inTree
      · simp at first
      · simp at taking
      · rw [List.mem_singleton] at copy
        cases copy
        exact Nat.lt_succ_self _
      · exact younger _ (fun entry member => .inl member) inList
      · exact younger _ (fun entry member => .inr (.inl member)) inTable
      · exact younger _ (fun entry member => .inr (.inr member)) inTree

/-! ### Any number of calls -/

theorem reads_keeps {m after : Module} {count : Nat} {results : List (Int × String)}
    (empty : m.Empty) (called : reads kernel count m = some (results, after)) :
    ∃ events, after.ledger = m.ledger ++ events ∧
      (0 < count → .alloc m.requests ∈ events) ∧
      (∀ address, .free address ∈ events → m.requests < address) ∧
      m.requests ≤ after.requests ∧ (count = 0 → events = []) := by
  induction count generalizing after results with
  | zero =>
      cases called
      exact ⟨[], by simp, by omega, by simp, Nat.le_refl _, fun _ => rfl⟩
  | succ count ih =>
      obtain ⟨found, before, emptied, _⟩ := reads_result documented grants empty count
      obtain ⟨events, ledger, first, younger, later, none⟩ := ih before
      simp only [reads, before] at called
      cases last : proj2ProcShow kernel found with
      | none =>
          rw [last] at called
          cases called
      | some outcome =>
          obtain ⟨code, shown, left⟩ := outcome
          rw [last] at called
          cases called
          obtain ⟨more, lastLedger, lastFirst, lastYounger, lastLater⟩ :=
            proj2ProcShow_keeps documented grants emptied last
          refine ⟨events ++ more, ?_, ?_, ?_, by omega, by omega⟩
          · rw [lastLedger, ledger, List.append_assoc]
          · intro _
            rw [List.mem_append]
            cases count with
            | zero =>
                cases before
                exact .inr lastFirst
            | succ _ => exact .inl (first (Nat.succ_pos _))
          · intro address freed
            rcases List.mem_append.mp freed with earlier | now
            · exact younger address earlier
            · have bound := lastYounger address now
              omega

theorem reads_balanced_iff {m after : Module} {count : Nat} {results : List (Int × String)}
    (empty : m.Empty) (called : reads kernel count m = some (results, after)) :
    ∃ events, after.ledger = m.ledger ++ events ∧ (Balanced events ↔ count = 0) := by
  obtain ⟨events, ledger, first, younger, _, none⟩ :=
    reads_keeps documented grants empty called
  refine ⟨events, ledger, ?_⟩
  constructor
  · intro balanced
    by_contra some
    have kept : .free m.requests ∉ events := by
      intro freed
      exact Nat.lt_irrefl _ (younger m.requests freed)
    exact not_balanced (first (by omega)) kept balanced
  · intro zero
    rw [none zero]
    exact ⟨by simp, by simp⟩

/-- No call balances its ledger, whatever the parameter, and however many calls there were
before; nor do any number of calls together, unless there were none. -/
theorem ledger_never_balances {m : Module} (empty : m.Empty) (count : Nat) :
    ∃ results found past code shown left events,
      reads kernel count m = some (results, found) ∧ found.ledger = m.ledger ++ past ∧
      (Balanced past ↔ count = 0) ∧ proj2ProcShow kernel found = some (code, shown, left) ∧
      left.ledger = found.ledger ++ events ∧ ¬ Balanced events := by
  obtain ⟨found, before, emptied, _⟩ := reads_result documented grants empty count
  obtain ⟨past, pastLedger, balanced⟩ := reads_balanced_iff documented grants empty before
  obtain ⟨left, called, _, _⟩ := proj2ProcShow_result documented grants emptied
  obtain ⟨events, ledger, first, younger, _⟩ :=
    proj2ProcShow_keeps documented grants emptied called
  have kept : .free found.requests ∉ events := by
    intro freed
    exact Nat.lt_irrefl _ (younger found.requests freed)
  exact ⟨_, found, past, _, _, left, events, before, pastLedger, balanced, called, ledger,
    not_balanced first kept⟩

/-! ### How much a call keeps -/

def handedOut (events : List MemoryEvent) : Nat :=
  events.countP (fun event => match event with
    | .alloc _ => true
    | .free _ => false)

def givenBack (events : List MemoryEvent) : Nat :=
  events.countP (fun event => match event with
    | .alloc _ => false
    | .free _ => true)

omit documented grants in
theorem frees_counts (entries : List Entry) :
    handedOut (frees entries) = 0 ∧ givenBack (frees entries) = entries.length := by
  induction entries with
  | nil => exact ⟨rfl, rfl⟩
  | cons entry rest ih =>
      obtain ⟨none, all⟩ := ih
      constructor
      · rw [handedOut] at none ⊢
        exact (List.countP_cons_of_neg Bool.false_ne_true).trans none
      · rw [givenBack] at all ⊢
        exact (List.countP_cons_of_pos rfl).trans (congrArg Nat.succ all)

omit documented grants in
theorem allocs_counts (taken : List Nat) :
    handedOut (taken.map .alloc) = taken.length ∧ givenBack (taken.map .alloc) = 0 := by
  induction taken with
  | nil => exact ⟨rfl, rfl⟩
  | cons address rest ih =>
      obtain ⟨all, none⟩ := ih
      constructor
      · rw [handedOut] at all ⊢
        exact (List.countP_cons_of_pos rfl).trans (congrArg Nat.succ all)
      · rw [givenBack] at none ⊢
        exact (List.countP_cons_of_neg Bool.false_ne_true).trans none

omit documented grants in
/-- What is kept is `temp2`, one entry of the radix tree for each number, and one more for each
number that repeats another. -/
theorem Accounted.outstanding {start filled : Module} {held : List Int32}
    (accounted : Accounted start held filled) {taken : List Nat}
    (counted : taken.length = 4 * held.length) (first copy : Nat) {events : List MemoryEvent}
    (same : events = [.alloc first, .alloc copy] ++ taken.map .alloc ++ [.free copy] ++
      frees filled.mylist ++ frees (hashEntries filled.myHTable) ++
      frees filled.root.inorder) :
    handedOut events + (numbersOf held).toFinset.card =
      givenBack events + 1 + 2 * held.length := by
  have stored := accounted.stored
  have listed : filled.mylist.length = held.length := by
    rw [← stored.list, List.length_map]
  have hashed : (hashEntries filled.myHTable).length = held.length := by
    rw [← stored.hash.length_eq, List.length_map]
  have inTree : filled.root.inorder.length = (numbersOf held).toFinset.card := by
    have shown := congrArg List.length (tree_line stored.tree)
    rw [numbersOf, List.length_map, List.length_map, increasing, Finset.length_sort] at shown
    exact shown
  obtain ⟨out, back⟩ := allocs_counts taken
  rw [same]
  simp only [handedOut, givenBack, List.countP_append] at out back ⊢
  have list := frees_counts filled.mylist
  have hash := frees_counts (hashEntries filled.myHTable)
  have tree := frees_counts filled.root.inorder
  simp only [handedOut, givenBack] at list hash tree
  rw [list.1, list.2, hash.1, hash.2, tree.1, tree.2, out, back, listed, hashed, inTree, counted]
  simp only [List.countP_cons, List.countP_nil]
  simp
  omega

end Granted

/-- A read with the parameter `5` keeps the memory it asked for first. -/
theorem ledger_balances_fails :
    ∃ code shown after events,
      proj2ProcShow plainKernel (loaded "5") = some (code, shown, after) ∧
      after.ledger = (loaded "5").ledger ++ events ∧ .alloc 0 ∈ events ∧ .free 0 ∉ events ∧
      ¬ Balanced events := by
  have empty : (loaded "5").Empty :=
    ⟨rfl, fun _ => rfl, rfl, Std.TreeMap.isEmpty_emptyc⟩
  obtain ⟨after, called, _, _⟩ :=
    proj2ProcShow_result plainKernel_documented (fun _ => rfl) empty
  obtain ⟨events, ledger, first, younger, _⟩ :=
    proj2ProcShow_keeps plainKernel_documented (fun _ => rfl) empty called
  have kept : .free 0 ∉ events := by
    intro freed
    exact Nat.lt_irrefl _ (younger 0 freed)
  exact ⟨_, _, after, events, called, ledger, first, kept, not_balanced first kept⟩

theorem ledger_never_balances_second :
    ∃ results found past code shown left events,
      reads plainKernel 1 (loaded "7,7") = some (results, found) ∧
      found.ledger = (loaded "7,7").ledger ++ past ∧ (Balanced past ↔ 1 = 0) ∧
      proj2ProcShow plainKernel found = some (code, shown, left) ∧
      left.ledger = found.ledger ++ events ∧ ¬ Balanced events :=
  ledger_never_balances plainKernel_documented (fun _ => rfl)
    ⟨rfl, fun _ => rfl, rfl, Std.TreeMap.isEmpty_emptyc⟩ 1

end LKP.Proj2
