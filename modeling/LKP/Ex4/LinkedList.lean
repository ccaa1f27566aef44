import LKP.Proj2.Parsing

/-
The module `ex4`: it stores the numbers of a parameter in a list, prints them, and frees
the list.

`store_value` has no `return`, and the cleanup frees each entry and then the list node
inside it.  So nothing goes right once a value is stored, and everything does as long as
none is.
-/

set_option autoImplicit false

namespace LKP.Ex4

open LKP.Proj2 (Errno strsep unseparated strsep_shorter tokensOf tokensOf_nil strsep_cons)

/-! ### Data -/

structure Pointer where
  object : Nat
  offset : Nat
deriving DecidableEq

structure Entry where
  object : Nat
  val : Int32
deriving DecidableEq

/-- The place of the `list_head` in `struct entry`, behind a number of 4 bytes and padding. -/
def offsetOfList : Nat := 8

structure Module where
  intStr : Option (List Char)
  mylist : List Entry
  requests : Nat
  allocated : List Pointer
  freed : List Pointer
  log : List String
deriving DecidableEq

structure Kernel where
  /-- Whether a request for memory is granted. -/
  grants : Nat → Bool
  /-- `kstrtoint` with base 0. -/
  kstrtoint : List Char → Except Errno Int32
  /-- What the register of the return value holds after the request of that number. -/
  leftover : Nat → Int32

def loaded (intStr : Option (List Char)) : Module :=
  { intStr := intStr, mylist := [], requests := 0, allocated := [], freed := [], log := [] }

def kmalloc (kernel : Kernel) (m : Module) : Option Nat × Module :=
  if kernel.grants m.requests then
    (some m.requests,
      { m with requests := m.requests + 1, allocated := m.allocated ++ [⟨m.requests, 0⟩] })
  else (none, { m with requests := m.requests + 1 })

def kfree (pointer : Pointer) (m : Module) : Module := { m with freed := m.freed ++ [pointer] }

def printk (text : String) (m : Module) : Module := { m with log := m.log ++ [text] }

/-! ### The functions of the module -/

/-- `store_value`: without a `return`, its result is what is left in the register. -/
def storeValue (kernel : Kernel) (val : Int32) (m : Module) : Option (Int32 × Module) :=
  match kmalloc kernel m with
  -- `ex4_list->val` of a null pointer
  | (none, _) => none
  | (some object, after) =>
      some (kernel.leftover m.requests, { after with mylist := after.mylist ++ [⟨object, val⟩] })

def dataLine (val : Int32) : String := "data in the list = " ++ toString val.toInt ++ "\n"

def testLinkedList (m : Module) : Module :=
  m.mylist.foldl (fun m entry => printk (dataLine entry.val) m) m

/-- The loop of `destroy_linked_list_and_free`, over the entries it has in front of it. -/
def destroyLoop : List Entry → Module → Module
  | [], m => m
  | data :: next, m =>
      let m := { m with mylist := m.mylist.erase data }
      let m := kfree ⟨data.object, 0⟩ m
      destroyLoop next (kfree ⟨data.object, offsetOfList⟩ m)

def destroyLinkedListAndFree (m : Module) : Module := destroyLoop m.mylist m

/-- The loop of `parse_params`, with `params` and `err` as they are at its head. -/
def parseLoop (kernel : Kernel) (params : Option (List Char)) (err : Int) (m : Module) :
    Option (Int × Module) :=
  match _separated : strsep ',' params with
  | (none, _) => some (err, m)
  | (some p, rest) =>
      if p = [] then parseLoop kernel rest err m
      else
        match kernel.kstrtoint p with
        | .error error => some (error.code, m)
        | .ok val =>
            match storeValue kernel val m with
            | none => none
            | some (err, m) =>
                if err ≠ 0 then some (err.toInt, m) else parseLoop kernel rest err.toInt m
termination_by unseparated params
decreasing_by all_goals exact strsep_shorter _separated

def parseParams (kernel : Kernel) (intStr : List Char) (m : Module) : Option (Int × Module) :=
  match kmalloc kernel m with
  | (none, m) => some (Errno.enomem.code, m)
  | (some orig, m) =>
      match parseLoop kernel (some intStr) 0 m with
      | none => none
      | some (err, m) => some (err, kfree ⟨orig, 0⟩ m)

def cleanup (m : Module) : Module := destroyLinkedListAndFree (printk "\nCleaning up...\n" m)

/-- `ex4_init`; the tests it runs print the list. -/
def ex4Init (kernel : Kernel) (m : Module) : Option (Int × Module) :=
  match m.intStr with
  | none => some (-1, printk "Missing 'int_str' parameter, exiting\n" m)
  | some intStr =>
      match parseParams kernel intStr m with
      | none => none
      | some (err, m) =>
          if err ≠ 0 then some (err, cleanup m) else some (err, cleanup (testLinkedList m))

/-! ### What is expected -/

def fullTokens (intStr : List Char) : List (List Char) :=
  (intStr.splitOn ',').filter (fun token => token ≠ [])

/-- What they stand for: their numbers, or the error of the first one that is rejected. -/
def parsed (kernel : Kernel) (intStr : List Char) : Except Errno (List Int32) :=
  (fullTokens intStr).mapM kernel.kstrtoint

/-- The entries are stored and printed in order, and freed once with the copy of the
parameter, as is nothing else. -/
structure Exact (kernel : Kernel) (intStr : List Char) (err : Int) (after : Module) : Prop where
  accepted : ∀ values, parsed kernel intStr = .ok values → err = 0 ∧
    after.log = values.map dataLine ++ ["\nCleaning up...\n"] ∧
    ∃ filled, parseParams kernel intStr (loaded (some intStr)) = some (0, filled) ∧
      filled.mylist.map Entry.val = values
  rejected : ∀ error, parsed kernel intStr = .error error → err = error.code
  emptied : after.mylist = []
  freed : after.freed.Perm after.allocated

/-- No value is stored: there is no token, or the first is rejected. -/
def NothingStored (kernel : Kernel) (intStr : List Char) : Prop :=
  ∀ token rest, fullTokens intStr = token :: rest →
    ∃ error, kernel.kstrtoint token = .error error

/-! ### The parser -/

variable {kernel : Kernel}

theorem parseLoop_end (err : Int) (m : Module) : parseLoop kernel none err m = some (err, m) := by
  rw [parseLoop]
  rfl

def tokenRound (kernel : Kernel) (p : List Char) (rest : Option (List Char)) (m : Module) :
    Option (Int × Module) :=
  match kernel.kstrtoint p with
  | .error error => some (error.code, m)
  | .ok val =>
      match storeValue kernel val m with
      | none => none
      | some (err, m) =>
          if err ≠ 0 then some (err.toInt, m) else parseLoop kernel rest err.toInt m

theorem parseLoop_token {params rest : Option (List Char)} {p : List Char} (err : Int)
    (m : Module) (separated : strsep ',' params = (some p, rest)) :
    parseLoop kernel params err m =
      if p = [] then parseLoop kernel rest err m else tokenRound kernel p rest m := by
  rw [parseLoop]
  split
  · rename_i ended
    rw [separated] at ended
    cases ended
  · rename_i found
    rw [separated] at found
    cases found
    rfl

/-- Empty tokens are passed over. -/
theorem parseLoop_full {tokens : List (List Char)} {params : Option (List Char)}
    (left : tokensOf params = tokens) (err : Int) (m : Module) :
    (tokens.filter (fun token => token ≠ []) = [] ∧
        parseLoop kernel params err m = some (err, m)) ∨
      ∃ token later, tokens.filter (fun token => token ≠ []) =
          token :: (tokensOf later).filter (fun token => token ≠ []) ∧
        parseLoop kernel params err m = tokenRound kernel token later m := by
  induction tokens generalizing params with
  | nil =>
      obtain rfl := tokensOf_nil left
      exact .inl ⟨rfl, parseLoop_end err m⟩
  | cons token later ih =>
      obtain ⟨rest, separated, following⟩ := strsep_cons left
      rw [parseLoop_token err m separated]
      by_cases blank : token = []
      · rw [if_pos blank, List.filter_cons_of_neg (by simpa using blank)]
        exact ih following
      · rw [if_neg blank, List.filter_cons_of_pos (by simpa using blank), ← following]
        exact .inr ⟨token, rest, rfl, rfl⟩

/-- What every store keeps, the loop keeps. -/
theorem parseLoop_invariant {Inv : Module → Prop}
    (stores : ∀ val m err after, Inv m → storeValue kernel val m = some (err, after) → Inv after)
    {params : Option (List Char)} {err last : Int} {m after : Module} (inv : Inv m)
    (run : parseLoop kernel params err m = some (last, after)) : Inv after := by
  fun_induction parseLoop kernel params err m with
  | case1 params err m rest ended =>
      cases run
      exact inv
  | case2 params err m rest separated ih => exact ih inv run
  | case3 params err m p rest separated nonempty error rejected =>
      cases run
      exact inv
  | case4 params err m p rest separated nonempty val accepted failed => cases run
  | case5 params err m p rest separated nonempty val accepted err' stored storing nonzero =>
      cases run
      exact stores val m _ _ inv storing
  | case6 params err m p rest separated nonempty val accepted err' stored storing zero ih =>
      exact ih (stores val m _ _ inv storing) run

/-! ### The cleanup -/

def freedPointers (entries : List Entry) : List Pointer :=
  entries.flatMap (fun entry => [⟨entry.object, 0⟩, ⟨entry.object, offsetOfList⟩])

theorem destroyLoop_eq {entries : List Entry} {m : Module} (left : m.mylist = entries) :
    destroyLoop entries m =
      { m with mylist := [], freed := m.freed ++ freedPointers entries } := by
  induction entries generalizing m with
  | nil =>
      rw [destroyLoop, freedPointers, List.flatMap_nil, List.append_nil, ← left]
  | cons data rest ih =>
      have shorter : m.mylist.erase data = rest := by rw [left, List.erase_cons_head]
      have following := @ih
        (kfree ⟨data.object, offsetOfList⟩
          (kfree ⟨data.object, 0⟩ { m with mylist := m.mylist.erase data })) shorter
      rw [destroyLoop, following]
      simp only [kfree, freedPointers, List.flatMap_cons, List.append_assoc, List.cons_append,
        List.nil_append]

theorem cleanup_eq (m : Module) :
    cleanup m =
      { m with mylist := [], freed := m.freed ++ freedPointers m.mylist,
               log := m.log ++ ["\nCleaning up...\n"] } := by
  rw [cleanup, destroyLinkedListAndFree, destroyLoop_eq rfl]
  rfl

theorem printLines_eq (entries : List Entry) (m : Module) :
    entries.foldl (fun m entry => printk (dataLine entry.val) m) m =
      { m with log := m.log ++ (entries.map Entry.val).map dataLine } := by
  induction entries generalizing m with
  | nil => simp
  | cons entry rest ih =>
      rw [List.foldl_cons, ih]
      simp only [printk, List.map_cons, List.append_assoc, List.cons_append, List.nil_append]

theorem testLinkedList_eq (m : Module) :
    testLinkedList m = { m with log := m.log ++ (m.mylist.map Entry.val).map dataLine } :=
  printLines_eq m.mylist m

/-! ### The whole of it -/

def copied (intStr : List Char) : Module :=
  { loaded (some intStr) with requests := 1, allocated := [⟨0, 0⟩] }

structure Linked (entry : Entry) (m : Module) : Prop where
  listed : entry ∈ m.mylist
  whole : ∀ pointer ∈ m.allocated, pointer.offset = 0

def stored (val : Int32) (m : Module) : Module :=
  { m with mylist := m.mylist ++ [⟨m.requests, val⟩], requests := m.requests + 1,
           allocated := m.allocated ++ [⟨m.requests, 0⟩] }

section Granted

variable (grants : ∀ request, kernel.grants request = true)

include grants

theorem storeValue_granted (val : Int32) (m : Module) :
    storeValue kernel val m = some (kernel.leftover m.requests, stored val m) := by
  simp only [storeValue, kmalloc, grants, if_true, stored]

theorem parseParams_granted (intStr : List Char) :
    parseParams kernel intStr (loaded (some intStr)) =
      (parseLoop kernel (some intStr) 0 (copied intStr)).map
        (fun (err, m) => (err, kfree ⟨0, 0⟩ m)) := by
  have copy : kmalloc kernel (loaded (some intStr)) = (some 0, copied intStr) :=
    if_pos (grants 0)
  simp only [parseParams, copy]
  cases parseLoop kernel (some intStr) 0 (copied intStr) with
  | none => rfl
  | some result => rfl

theorem ex4Init_parsed {intStr : List Char} {err : Int} {m : Module}
    (looped : parseLoop kernel (some intStr) 0 (copied intStr) = some (err, m)) :
    ex4Init kernel (loaded (some intStr)) =
      some (err,
        { m with
          mylist := []
          freed := m.freed ++ [⟨0, 0⟩] ++ freedPointers m.mylist
          log := m.log ++ (if err = 0 then (m.mylist.map Entry.val).map dataLine else []) ++
            ["\nCleaning up...\n"] }) := by
  have params := parseParams_granted grants intStr
  rw [looped, Option.map_some] at params
  have given : (loaded (some intStr)).intStr = some intStr := rfl
  simp only [ex4Init, given, params]
  by_cases zero : err = 0
  · rw [if_neg (not_not_intro zero), if_pos zero, testLinkedList_eq, cleanup_eq]
    rfl
  · rw [if_pos zero, if_neg zero, cleanup_eq, List.append_nil]
    rfl

theorem ex4Init_frees {intStr : List Char} {err : Int} {after : Module}
    (run : ex4Init kernel (loaded (some intStr)) = some (err, after)) :
    ∃ m, parseLoop kernel (some intStr) 0 (copied intStr) = some (err, m) ∧
      after.allocated = m.allocated ∧
      ∀ entry ∈ m.mylist, ⟨entry.object, offsetOfList⟩ ∈ after.freed := by
  cases looped : parseLoop kernel (some intStr) 0 (copied intStr) with
  | none =>
      have params := parseParams_granted grants intStr
      rw [looped, Option.map_none] at params
      have given : (loaded (some intStr)).intStr = some intStr := rfl
      simp only [ex4Init, given, params] at run
      cases run
  | some result =>
      obtain ⟨last, m⟩ := result
      rw [ex4Init_parsed grants looped] at run
      cases run
      refine ⟨m, rfl, rfl, fun entry member => ?_⟩
      apply List.mem_append_right
      apply List.mem_flatMap.mpr
      exact ⟨entry, member, by simp⟩

theorem Linked.storeValue {entry : Entry} {val : Int32} {m after : Module} {err : Int32}
    (linked : Linked entry m) (storing : storeValue kernel val m = some (err, after)) :
    Linked entry after := by
  rw [storeValue_granted grants] at storing
  cases storing
  constructor
  · exact List.mem_append_left _ linked.listed
  · unfold stored
    rw [List.forall_mem_append, List.forall_mem_singleton]
    exact ⟨linked.whole, rfl⟩

/-- The value of a token that is accepted gets into the list, and stays there. -/
theorem tokenRound_stores {token : List Char} {val : Int32}
    (accepted : kernel.kstrtoint token = .ok val) {later : Option (List Char)} {m after : Module}
    {err : Int} (whole : ∀ pointer ∈ m.allocated, pointer.offset = 0)
    (run : tokenRound kernel token later m = some (err, after)) :
    Linked ⟨m.requests, val⟩ after := by
  have begun : Linked ⟨m.requests, val⟩ (stored val m) := by
    constructor
    · exact List.mem_append_right _ List.mem_cons_self
    · unfold stored
      rw [List.forall_mem_append, List.forall_mem_singleton]
      exact ⟨whole, rfl⟩
  simp only [tokenRound, accepted, storeValue_granted grants val m] at run
  split at run
  · cases run
    exact begun
  · exact parseLoop_invariant
      (fun val m err after linked storing => Linked.storeValue grants linked storing) begun run

/-- Once a value is stored, a pointer is freed that was not handed out. -/
theorem nothingStored_of_freed {intStr : List Char} {err : Int} {after : Module}
    (run : ex4Init kernel (loaded (some intStr)) = some (err, after))
    (freed : after.freed.Perm after.allocated) : NothingStored kernel intStr := by
  intro token rest full
  cases number : kernel.kstrtoint token with
  | error error => exact ⟨error, rfl⟩
  | ok val =>
      obtain ⟨m, looped, allocated, nodes⟩ := ex4Init_frees grants run
      rcases @parseLoop_full kernel (intStr.splitOn ',') (some intStr) rfl 0 (copied intStr) with
        ⟨empty, _⟩ | ⟨first, later, same, begun⟩
      · rw [fullTokens, empty] at full
        cases full
      · rw [fullTokens, same] at full
        cases full
        rw [begun] at looped
        have initially : ∀ pointer ∈ (copied intStr).allocated, pointer.offset = 0 :=
          List.forall_mem_singleton.mpr rfl
        have linked := tokenRound_stores grants number initially looped
        have handedOut := freed.mem_iff.mp (nodes _ linked.listed)
        rw [allocated] at handedOut
        exact absurd (linked.whole _ handedOut) (Nat.succ_ne_zero 7)

/-- Everything is exact exactly when nothing is stored. -/
theorem ex4Init_exact_iff (intStr : List Char) :
    (∃ err after, ex4Init kernel (loaded (some intStr)) = some (err, after) ∧
        Exact kernel intStr err after) ↔ NothingStored kernel intStr := by
  constructor
  · intro satisfied
    obtain ⟨err, after, run, exact⟩ := satisfied
    exact nothingStored_of_freed grants run exact.freed
  · intro nothing
    rcases @parseLoop_full kernel (intStr.splitOn ',') (some intStr) rfl 0 (copied intStr) with
      ⟨empty, looped⟩ | ⟨token, later, full, looped⟩
    · have values : parsed kernel intStr = .ok [] := by
        rw [parsed, fullTokens, empty]
        rfl
      refine ⟨_, _, ex4Init_parsed grants looped, ?_, ?_, rfl, List.Perm.refl _⟩
      · intro others accepted
        rw [values] at accepted
        cases accepted
        refine ⟨rfl, rfl, kfree ⟨0, 0⟩ (copied intStr), ?_, rfl⟩
        rw [parseParams_granted grants, looped]
        rfl
      · intro error rejected
        rw [values] at rejected
        cases rejected
    · obtain ⟨error, number⟩ := nothing token _ full
      have values : parsed kernel intStr = .error error := by
        rw [parsed, fullTokens, full, List.mapM_cons, number]
        rfl
      have refused : tokenRound kernel token later (copied intStr) =
          some (error.code, copied intStr) := by
        simp only [tokenRound, number]
      refine ⟨_, _, ex4Init_parsed grants (looped.trans refused), ?_, ?_, rfl,
        List.Perm.refl _⟩
      · intro others accepted
        rw [values] at accepted
        cases accepted
      · intro same rejected
        rw [values] at rejected
        cases rejected
        rfl

/-! ### A register that holds zeros -/

variable (zeros : ∀ request, kernel.leftover request = 0)

include zeros

theorem parseLoop_zeros {full : List (List Char)} {params : Option (List Char)}
    (left : (tokensOf params).filter (fun token => token ≠ []) = full) {values : List Int32}
    (accepted : full.mapM kernel.kstrtoint = .ok values) (m : Module) :
    parseLoop kernel params 0 m = some (0, values.foldl (fun m val => stored val m) m) := by
  induction full generalizing params values m with
  | nil =>
      rcases @parseLoop_full kernel _ params rfl 0 m with ⟨_, looped⟩ | ⟨token, later, some, _⟩
      · cases accepted
        exact looped
      · rw [left] at some
        cases some
  | cons token rest ih =>
      rcases @parseLoop_full kernel _ params rfl 0 m with ⟨none, _⟩ | ⟨first, later, some, looped⟩
      · rw [left] at none
        cases none
      · obtain ⟨rfl, following⟩ := List.cons.inj (left.symm.trans some)
        rw [List.mapM_cons] at accepted
        cases number : kernel.kstrtoint token with
        | error error =>
            rw [number] at accepted
            cases accepted
        | ok val =>
            cases others : rest.mapM kernel.kstrtoint with
            | error error =>
                rw [number, others] at accepted
                cases accepted
            | ok later' =>
                rw [number, others] at accepted
                cases accepted
                have onwards := ih following.symm others (stored val m)
                rw [looped]
                simp only [tokenRound, number, storeValue_granted grants val m, zeros]
                exact onwards

omit grants zeros in
theorem stored_all (values : List Int32) (m : Module) :
    ∃ entries, entries.map Entry.val = values ∧
      values.foldl (fun m val => stored val m) m =
        { m with mylist := m.mylist ++ entries, requests := m.requests + values.length,
                 allocated := m.allocated ++ entries.map (fun entry => ⟨entry.object, 0⟩) } := by
  induction values generalizing m with
  | nil => exact ⟨[], rfl, by simp⟩
  | cons val rest ih =>
      obtain ⟨entries, same, after⟩ := ih (stored val m)
      refine ⟨⟨m.requests, val⟩ :: entries, by rw [List.map_cons, same], ?_⟩
      rw [List.foldl_cons, after]
      simp [stored, Nat.add_assoc, Nat.add_comm 1]

/-- Everything is then exact, but that each entry is freed twice, at two places. -/
theorem ex4Init_zeros {intStr : List Char} {values : List Int32}
    (accepted : parsed kernel intStr = .ok values) :
    ∃ entries after, ex4Init kernel (loaded (some intStr)) = some (0, after) ∧
      entries.map Entry.val = values ∧
      after.log = values.map dataLine ++ ["\nCleaning up...\n"] ∧ after.mylist = [] ∧
      after.allocated = ⟨0, 0⟩ :: entries.map (fun entry => ⟨entry.object, 0⟩) ∧
      after.freed = ⟨0, 0⟩ :: freedPointers entries := by
  obtain ⟨entries, same, all⟩ := stored_all values (copied intStr)
  have looped := @parseLoop_zeros kernel grants zeros _ (some intStr) rfl values accepted
    (copied intStr)
  have run := ex4Init_parsed grants looped
  rw [all] at run
  refine ⟨entries, _, run, same, ?_, rfl, rfl, rfl⟩
  simp [copied, loaded, same]

end Granted

def sampleKernel : Kernel where
  grants _ := true
  kstrtoint token :=
    if token.all Char.isDigit then .ok (Int32.ofNat (Nat.ofDigitChars 10 token 0))
    else .error .einval
  leftover _ := 0

theorem ex4Init_exact_iff_rejected :
    (∃ err after, ex4Init sampleKernel (loaded (some [',', 'x'])) = some (err, after) ∧
        Exact sampleKernel [',', 'x'] err after) ↔ NothingStored sampleKernel [',', 'x'] :=
  ex4Init_exact_iff (fun _ => rfl) _

/-- The number 7 is stored, and freed at two places. -/
theorem ex4Init_exact_fails :
    parsed sampleKernel ['7'] = .ok [7] ∧
      ¬ ∃ err after, ex4Init sampleKernel (loaded (some ['7'])) = some (err, after) ∧
        Exact sampleKernel ['7'] err after := by
  have full : fullTokens ['7'] = [['7']] := by decide
  have number : sampleKernel.kstrtoint ['7'] = .ok 7 := by rfl
  constructor
  · rw [parsed, full, List.mapM_cons, number]
    rfl
  · intro satisfied
    obtain ⟨err, after, run, exact⟩ := satisfied
    have nothing := nothingStored_of_freed (fun _ => rfl) run exact.freed
    obtain ⟨error, rejected⟩ := nothing ['7'] [] full
    rw [number] at rejected
    cases rejected

end LKP.Ex4
