import LKP.Library.Overlay
import LKP.Proj3.PageOffsets

/-
What `mem_read` prints of a page after writes of all kinds.

A message is copied without its NUL over what the page holds.  So the page has all the
messages that covered it laid over one another, and the last is what is printed as long
as none of the others was longer.
-/

set_option autoImplicit false

namespace LKP.Proj3

open CBuffer CIntegers Overlay

/-! ### Writes -/

structure WriteCall where
  num : UInt64
  msg : List UInt8

structure WriteCall.Valid (pgSize : UInt64) (call : WriteCall) : Prop where
  accepted : call.num < pgSize ∨ call.num = -1
  nonempty : call.msg ≠ []
  nulFree : (0 : UInt8) ∉ call.msg
  short : call.msg.length < 4096

def runWrites (fuel : Nat) (mch : Stuff) : List WriteCall → Option Stuff
  | [] => some mch
  | call :: rest =>
      match memWrite mch call.num call.msg fuel with
      | none => none
      | some (addr, _) => runWrites fuel { mch with addr := addr } rest

def WriteCall.covers (page : Nat) (call : WriteCall) : Bool :=
  call.num = -1 || call.num.toNat = page

def covering (page : Nat) (calls : List WriteCall) : List (List UInt8) :=
  (calls.filter (WriteCall.covers page)).map WriteCall.msg

def LastIsLongest (calls : List WriteCall) (page : Nat) : Prop :=
  ∀ msg ∈ covering page calls, msg.length ≤ (lastText (covering page calls)).length

/-- What a read prints, without the addresses. -/
def textsRead (mch : Stuff) (num : UInt64) (fuel : Nat) : Option (List (List UInt8)) :=
  (memRead mch num fuel).map (List.map PageRead.text)

/-! ### The content of a page -/

def InPage (page : Nat) (index : Int) : Prop :=
  (page : Int) * 4096 ≤ index ∧ index < (page : Int) * 4096 + 4096

def PageHolds (addr : Buffer) (page : Nat) (msgs : List (List UInt8)) : Prop :=
  ∀ index, InPage page index → addr index = overlay ((page : Int) * 4096) msgs index

theorem covering_cons (page : Nat) (call : WriteCall) (calls : List WriteCall) :
    covering page (call :: calls) =
      (if call.covers page then [call.msg] else []) ++ covering page calls := by
  unfold covering
  cases covered : call.covers page with
  | false =>
      rw [List.filter_cons_of_neg (Bool.eq_false_iff.mp covered)]
      rfl
  | true =>
      rw [List.filter_cons_of_pos covered]
      rfl

theorem copyTo_inPage {msg : List UInt8} (nulFree : (0 : UInt8) ∉ msg)
    (short : msg.length < 4096) (state : Buffer × List Int) {target page : Nat}
    (small : target < 2 ^ 19) {index : Int} (inside : InPage page index) :
    (copyTo msg (intOffset target) state).1 index =
      if target = page then memcpy state.1 ((page : Int) * 4096) msg index
      else state.1 index := by
  obtain ⟨lower, upper⟩ := inside
  have copied : (copyTo msg (intOffset target) state).1 =
      memcpy state.1 ((target : Int) * 4096) msg := by
    rw [copyTo, strBytes_eq_self nulFree, intOffset_of_small small]
  rw [copied]
  by_cases same : target = page
  · rw [if_pos same, same]
  · rw [if_neg same]
    apply memcpy_outside
    omega

theorem copies_inPage {msg : List UInt8} (nulFree : (0 : UInt8) ∉ msg)
    (short : msg.length < 4096) (state : Buffer × List Int) {pages page : Nat}
    (few : pages ≤ 2 ^ 19) {index : Int} (inside : InPage page index) :
    ((List.range pages).foldl (fun state page => copyTo msg (intOffset page) state) state).1
        index =
      if page < pages then memcpy state.1 ((page : Int) * 4096) msg index
      else state.1 index := by
  induction pages with
  | zero => exact (if_neg (Nat.not_lt_zero page)).symm
  | succ pages ih =>
      have before := ih (by omega)
      rw [List.range_succ, List.foldl_concat, copyTo_inPage nulFree short _ (by omega) inside]
      by_cases last : pages = page
      · rw [if_neg (by omega)] at before
        rw [if_pos last, if_pos (by omega)]
        exact memcpy_congr _ _ before
      · rw [if_neg last, before]
        by_cases earlier : page < pages
        · rw [if_pos earlier, if_pos (by omega)]
        · rw [if_neg earlier, if_neg (by omega)]

theorem PageHolds.copied {addr after : Buffer} {page : Nat} {msgs : List (List UInt8)}
    (held : PageHolds addr page msgs) {msg : List UInt8}
    (same : ∀ index, InPage page index →
      after index = memcpy addr ((page : Int) * 4096) msg index) :
    PageHolds after page (msgs ++ [msg]) := by
  intro index inside
  rw [same index inside, overlay_concat]
  exact memcpy_congr _ _ (held index inside)

/-! ### Calls -/

variable {pgSize : UInt64} {fuel : Nat}

theorem intAdd_single (num : UInt64) : intAdd 0 (num * pageSize) = intOffset num.toNat := by
  apply Int32.toInt_inj.mp
  rw [singleOffset, intOffset_toInt]

/-- A call lays its message over those of the pages it covers. -/
theorem memWrite_pageHolds (few : pgSize.toNat ≤ 2 ^ 19) {mch : Stuff}
    (long : mch.length.toNat = pgSize.toNat * 4096) (enough : pgSize.toNat < fuel)
    {call : WriteCall} (valid : call.Valid pgSize) :
    ∃ addr offsets, memWrite mch call.num call.msg fuel = some (addr, offsets) ∧
      ∀ page < pgSize.toNat, ∀ msgs, PageHolds mch.addr page msgs →
        PageHolds addr page (msgs ++ if call.covers page then [call.msg] else []) := by
  obtain ⟨num, msg⟩ := call
  obtain ⟨accepted, _, nulFree, short⟩ := valid
  by_cases all : num = -1
  · rw [all]
    refine ⟨_, _, memWrite_all few long enough msg, ?_⟩
    intro page within msgs held
    have covered : WriteCall.covers page ⟨-1, msg⟩ = true := rfl
    rw [if_pos covered]
    apply held.copied
    intro index inside
    rw [copies_inPage nulFree short _ few inside, if_pos within]
  · have before := UInt64.lt_iff_toNat_lt.mp (accepted.resolve_right all)
    have small : num.toNat < 2 ^ 19 := Nat.lt_of_lt_of_le before few
    have run : memWrite mch num msg fuel =
        some (copyTo msg (intOffset num.toNat) (mch.addr, [])) := by
      rw [memWrite, if_neg all, intAdd_single]
    refine ⟨_, _, run, ?_⟩
    intro page within msgs held
    have content : ∀ index, InPage page index →
        (copyTo msg (intOffset num.toNat) (mch.addr, [])).1 index =
          if num.toNat = page then memcpy mch.addr ((page : Int) * 4096) msg index
          else mch.addr index :=
      fun index inside => copyTo_inPage nulFree short (mch.addr, []) small inside
    by_cases target : num.toNat = page
    · have covered : WriteCall.covers page ⟨num, msg⟩ = true := by
        rw [WriteCall.covers, Bool.or_eq_true, decide_eq_true_eq, decide_eq_true_eq]
        exact .inr target
      rw [if_pos covered]
      apply held.copied
      intro index inside
      exact (content index inside).trans (if_pos target)
    · have uncovered : ¬ WriteCall.covers page ⟨num, msg⟩ = true := by
        rw [WriteCall.covers, Bool.or_eq_true, decide_eq_true_eq, decide_eq_true_eq]
        exact not_or.mpr ⟨all, target⟩
      rw [if_neg uncovered, List.append_nil]
      intro index inside
      exact ((content index inside).trans (if_neg target)).trans (held index inside)

theorem runWrites_pageHolds (few : pgSize.toNat ≤ 2 ^ 19) (enough : pgSize.toNat < fuel)
    {calls : List WriteCall} (valid : ∀ call ∈ calls, call.Valid pgSize) {mch : Stuff}
    (long : mch.length.toNat = pgSize.toNat * 4096) (before : Nat → List (List UInt8))
    (held : ∀ page < pgSize.toNat, PageHolds mch.addr page (before page)) :
    ∃ addr, runWrites fuel mch calls = some { mch with addr := addr } ∧
      ∀ page < pgSize.toNat, PageHolds addr page (before page ++ covering page calls) := by
  induction calls generalizing mch before with
  | nil =>
      refine ⟨mch.addr, rfl, fun page within => ?_⟩
      have nothing : before page ++ covering page [] = before page := List.append_nil _
      rw [nothing]
      exact held page within
  | cons call calls ih =>
      obtain ⟨addr, offsets, run, content⟩ :=
        memWrite_pageHolds few long enough (valid call List.mem_cons_self)
      obtain ⟨final, rest, pages⟩ := @ih
        (fun later member => valid later (List.mem_cons_of_mem call member))
        { mch with addr := addr } long
        (fun page => before page ++ if call.covers page then [call.msg] else [])
        (fun page within => content page within _ (held page within))
      refine ⟨final, ?_, fun page within => ?_⟩
      · rw [runWrites, run]
        exact rest
      · rw [covering_cons, ← List.append_assoc]
        exact pages page within

/-! ### Reads -/

theorem readAt_text (few : pgSize.toNat ≤ 2 ^ 19) {mch : Stuff}
    (long : mch.length.toNat = pgSize.toNat * 4096) {page : Nat} (within : page < pgSize.toNat)
    {msgs : List (List UInt8)} (held : PageHolds mch.addr page msgs)
    (nulFree : ∀ msg ∈ msgs, (0 : UInt8) ∉ msg) (short : ∀ msg ∈ msgs, msg.length < 4096) :
    (mch.readAt (intOffset page)).text = lastText msgs ↔
      ∀ msg ∈ msgs, msg.length ≤ (lastText msgs).length := by
  have offset := intOffset_of_small (Nat.lt_of_lt_of_le within few)
  obtain ⟨limit, limited⟩ : ∃ limit,
      limit = mch.length.toNat - (intOffset page).toInt.toNat := ⟨_, rfl⟩
  have room : 4096 ≤ limit := by
    rw [limited, long, offset]
    omega
  have terminated : overlay ((page : Int) * 4096) msgs ((page : Int) * 4096 + (4095 : Nat)) = 0 :=
    (overlay_eq_zero_iff _ nulFree 4095).mpr
      (fun msg member => Nat.le_of_lt_succ (short msg member))
  have text : (mch.readAt (intOffset page)).text =
      cString (overlay ((page : Int) * 4096) msgs) ((page : Int) * 4096) limit := by
    rw [Stuff.readAt, ← limited, offset]
    apply cString_congr_of_nul _ _ 4095 _ terminated
    intro index lower upper
    exact held index ⟨lower, by omega⟩
  rw [text]
  exact cString_overlay_iff _ nulFree
    (fun msg member => Nat.lt_of_lt_of_le (short msg member) room)

theorem covering_valid {calls : List WriteCall} (valid : ∀ call ∈ calls, call.Valid pgSize)
    (page : Nat) : ∀ msg ∈ covering page calls, (0 : UInt8) ∉ msg ∧ msg.length < 4096 := by
  intro msg member
  obtain ⟨call, among, same⟩ := List.mem_map.mp member
  rw [← same]
  have call := valid call (List.mem_of_mem_filter among)
  exact ⟨call.nulFree, call.short⟩

theorem ne_all_of_lt (few : pgSize.toNat ≤ 2 ^ 19) {num : UInt64} (before : num < pgSize) :
    num ≠ -1 := by
  intro all
  have last : (-1 : UInt64).toNat = 2 ^ 64 - 1 := by decide
  have within := UInt64.lt_iff_toNat_lt.mp before
  rw [all] at within
  omega

/-- Reads print what the last calls wrote when none before them was longer. -/
theorem textsRead_last_iff (few : pgSize.toNat ≤ 2 ^ 19) (enough : pgSize.toNat < fuel)
    {calls : List WriteCall} (valid : ∀ call ∈ calls, call.Valid pgSize) :
    ∃ mch, runWrites fuel (mapped (fun _ => 0) pgSize) calls = some mch ∧
      (∀ num, num < pgSize →
        (textsRead mch num fuel = some [lastText (covering num.toNat calls)] ↔
          LastIsLongest calls num.toNat)) ∧
      (textsRead mch (-1) fuel =
          some ((List.range pgSize.toNat).map (fun page => lastText (covering page calls))) ↔
        ∀ page < pgSize.toNat, LastIsLongest calls page) := by
  have long := mapped_length (fun _ => 0) few
  have zeros : ∀ page < pgSize.toNat, PageHolds (fun _ => 0) page [] :=
    fun page _ index _ => rfl
  obtain ⟨addr, run, held⟩ := runWrites_pageHolds few enough valid long (fun _ => []) zeros
  have texts : ∀ page < pgSize.toNat,
      ((mapped addr pgSize).readAt (intOffset page)).text = lastText (covering page calls) ↔
        LastIsLongest calls page := by
    intro page within
    have lines := covering_valid valid page
    exact readAt_text few (mapped_length addr few) within (held page within)
      (fun msg member => (lines msg member).1) (fun msg member => (lines msg member).2)
  refine ⟨mapped addr pgSize, run, ?_, ?_⟩
  · intro num before
    have within := UInt64.lt_iff_toNat_lt.mp before
    rw [textsRead, memRead, if_neg (ne_all_of_lt few before), intAdd_single,
      ← texts num.toNat within]
    constructor
    · intro same
      exact List.head_eq_of_cons_eq (Option.some.inj same)
    · intro same
      exact congrArg (fun text => some [text]) same
  · rw [textsRead, memRead_all few (mapped_length addr few) enough, Option.map_some,
      List.map_map, Option.some_inj, List.map_inj_left]
    constructor
    · intro same page within
      exact (texts page within).mp (same page (List.mem_range.mpr within))
    · intro longest page member
      have within := List.mem_range.mp member
      exact (texts page within).mpr (longest page within)

theorem textsRead_last_iff_growing :
    ∃ mch, runWrites 3 (mapped (fun _ => 0) 2) [⟨0, [97]⟩, ⟨-1, [98, 99]⟩] = some mch ∧
      (∀ num, num < 2 →
        (textsRead mch num 3 =
            some [lastText (covering num.toNat [⟨0, [97]⟩, ⟨-1, [98, 99]⟩])] ↔
          LastIsLongest [⟨0, [97]⟩, ⟨-1, [98, 99]⟩] num.toNat)) ∧
      (textsRead mch (-1) 3 =
          some ((List.range (2 : UInt64).toNat).map (fun page =>
            lastText (covering page [⟨0, [97]⟩, ⟨-1, [98, 99]⟩]))) ↔
        ∀ page < (2 : UInt64).toNat, LastIsLongest [⟨0, [97]⟩, ⟨-1, [98, 99]⟩] page) := by
  apply textsRead_last_iff (by decide) (by decide)
  rw [List.forall_mem_cons, List.forall_mem_singleton]
  exact ⟨⟨.inl (by decide), by decide, by decide, by decide⟩,
    ⟨.inr (by decide), by decide, by decide, by decide⟩⟩

/-- "c" over "ab" is read as "cb". -/
theorem textsRead_last_fails :
    (∀ call ∈ [WriteCall.mk 0 [97, 98], ⟨0, [99]⟩], call.Valid 1) ∧
      (runWrites 2 (mapped (fun _ => 0) 1) [⟨0, [97, 98]⟩, ⟨0, [99]⟩]).bind
        (fun mch => textsRead mch 0 2) = some [[99, 98]] ∧
      [99, 98] ≠ lastText (covering 0 [⟨0, [97, 98]⟩, ⟨0, [99]⟩]) := by
  rw [List.forall_mem_cons, List.forall_mem_singleton]
  exact ⟨⟨⟨.inl (by decide), by decide, by decide, by decide⟩,
    ⟨.inl (by decide), by decide, by decide, by decide⟩⟩, by decide +kernel, by decide⟩

end LKP.Proj3
