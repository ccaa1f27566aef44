import Mathlib

/-
Textbook MSI for a line that is cached in two places.

A line is owned by the last cache that stored to it, shared by both after a load
that missed, and cached nowhere before either.  Whether a load misses, and what
mode a cache holds a line in, follow from that.
-/

set_option autoImplicit false

namespace LKP.TwoCacheMsi

inductive Mode where
  | modified
  | shared
  | invalid
deriving DecidableEq

inductive Access where
  | load
  | store
deriving DecidableEq

structure Operation (Cache Page : Type) where
  cache : Cache
  page : Page
  access : Access
deriving DecidableEq

inductive Line (Cache : Type) where
  | unowned
  | owned (cache : Cache)
  | shared
deriving DecidableEq

variable {Cache Page : Type} [DecidableEq Cache] [DecidableEq Page]

def Line.mode : Line Cache → Cache → Mode
  | .unowned, _ => .invalid
  | .owned owner, cache => if cache = owner then .modified else .invalid
  | .shared, _ => .shared

def Line.after (line : Line Cache) (cache : Cache) : Access → Line Cache
  | .store => .owned cache
  | .load => if line.mode cache = .invalid then .shared else line

@[simp] theorem after_store (line : Line Cache) (cache : Cache) :
    line.after cache .store = .owned cache := rfl

theorem after_load (line : Line Cache) (cache : Cache) :
    line.after cache .load = if line.mode cache = .invalid then .shared else line := rfl

def Line.misses (line : Line Cache) (cache : Cache) (access : Access) : Bool :=
  decide (access = .load ∧ line.mode cache = .invalid)

abbrev Table (Cache Page : Type) := Page → Line Cache

def Table.apply (table : Table Cache Page) (operation : Operation Cache Page) :
    Table Cache Page :=
  Function.update table operation.page
    ((table operation.page).after operation.cache operation.access)

def tableAfter (operations : List (Operation Cache Page)) : Table Cache Page :=
  operations.foldl Table.apply (fun _ => .unowned)

def Table.missed (table : Table Cache Page) (operation : Operation Cache Page) :
    List (Cache × Page) :=
  if (table operation.page).misses operation.cache operation.access then
    [(operation.cache, operation.page)]
  else []

def missesFrom (table : Table Cache Page) :
    List (Operation Cache Page) → List (Cache × Page)
  | [] => []
  | operation :: rest => table.missed operation ++ missesFrom (table.apply operation) rest

def misses (operations : List (Operation Cache Page)) : List (Cache × Page) :=
  missesFrom (fun _ => .unowned) operations

@[simp] theorem mode_owned_self (cache : Cache) :
    (Line.owned cache).mode cache = .modified := if_pos rfl

theorem mode_owned_other {owner cache : Cache} (other : cache ≠ owner) :
    (Line.owned owner).mode cache = .invalid := if_neg other

theorem apply_same (table : Table Cache Page) (operation : Operation Cache Page) :
    table.apply operation operation.page =
      (table operation.page).after operation.cache operation.access :=
  Function.update_self ..

theorem apply_other (table : Table Cache Page) (operation : Operation Cache Page)
    {page : Page} (other : page ≠ operation.page) :
    table.apply operation page = table page :=
  Function.update_of_ne other ..

theorem tableAfter_append (operations : List (Operation Cache Page))
    (operation : Operation Cache Page) :
    tableAfter (operations ++ [operation]) = (tableAfter operations).apply operation := by
  simp only [tableAfter, List.foldl_append, List.foldl_cons, List.foldl_nil]

theorem missesFrom_append (table : Table Cache Page)
    (operations : List (Operation Cache Page)) (operation : Operation Cache Page) :
    missesFrom table (operations ++ [operation]) =
      missesFrom table operations ++ (operations.foldl Table.apply table).missed operation := by
  induction operations generalizing table with
  | nil => simp only [List.nil_append, missesFrom, List.append_nil, List.foldl_nil]
  | cons head rest ih =>
      simp only [List.cons_append, missesFrom, ih, List.foldl_cons, List.append_assoc]

theorem misses_append (operations : List (Operation Cache Page))
    (operation : Operation Cache Page) :
    misses (operations ++ [operation]) =
      misses operations ++ (tableAfter operations).missed operation :=
  missesFrom_append ..

/-! ### The last store -/

def lastStore (page : Page) (operations : List (Operation Cache Page)) : Option Cache :=
  operations.foldl
    (fun last operation =>
      if operation.page = page ∧ operation.access = .store then some operation.cache else last)
    none

omit [DecidableEq Cache] in
theorem lastStore_append (page : Page) (operations : List (Operation Cache Page))
    (operation : Operation Cache Page) :
    lastStore page (operations ++ [operation]) =
      if operation.page = page ∧ operation.access = .store then some operation.cache
      else lastStore page operations := by
  simp only [lastStore, List.foldl_append, List.foldl_cons, List.foldl_nil]

/-- A line that has been stored to is owned by the last cache that did, or shared. -/
theorem line_of_lastStore {page : Page} {operations : List (Operation Cache Page)}
    {cache : Cache} (last : lastStore page operations = some cache) :
    tableAfter operations page = .owned cache ∨ tableAfter operations page = .shared := by
  induction operations using List.reverseRecOn with
  | nil => cases last
  | append_singleton operations operation ih =>
      rw [lastStore_append] at last
      rw [tableAfter_append]
      by_cases same : operation.page = page
      · subst same
        rw [apply_same]
        cases stores : operation.access with
        | store =>
            rw [if_pos ⟨rfl, stores⟩] at last
            rw [← Option.some.inj last]
            exact .inl rfl
        | load =>
            rw [if_neg (by simp [stores])] at last
            rw [after_load]
            split
            · exact .inr rfl
            · exact ih last
      · rw [if_neg (by simp [same])] at last
        rw [apply_other _ _ (Ne.symm same)]
        exact ih last

/-! ### The program of one cache -/

def programOf (cache : Cache) (operations : List (Operation Cache Page)) :
    List (Operation Cache Page) :=
  operations.filter (fun operation => operation.cache = cache)

omit [DecidableEq Page] in
theorem programOf_append (cache : Cache) (first second : List (Operation Cache Page)) :
    programOf cache (first ++ second) = programOf cache first ++ programOf cache second :=
  List.filter_append ..

omit [DecidableEq Page] in
theorem programOf_own {cache : Cache} {operations : List (Operation Cache Page)}
    (own : ∀ operation ∈ operations, operation.cache = cache) :
    programOf cache operations = operations :=
  List.filter_eq_self.mpr (fun operation member => decide_eq_true (own operation member))

omit [DecidableEq Page] in
theorem programOf_foreign {cache other : Cache} (distinct : cache ≠ other)
    {operations : List (Operation Cache Page)}
    (own : ∀ operation ∈ operations, operation.cache = other) :
    programOf cache operations = [] := by
  apply List.filter_eq_nil_iff.mpr
  intro operation member
  rw [own operation member]
  simpa using distinct.symm

end LKP.TwoCacheMsi
