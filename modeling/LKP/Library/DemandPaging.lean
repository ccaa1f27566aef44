import LKP.Library.CBuffer

/-
A region of memory whose pages are installed when they are first accessed.

An access to a missing page is a fault.  The fault is answered by a pager, which names a
destination and the bytes of one page; the copy is refused unless it goes to the start of
a missing page, and an access whose own page is still missing afterwards never returns.
-/

set_option autoImplicit false

namespace LKP.DemandPaging

open CBuffer

variable {Control : Type}

structure Layout where
  size : Nat
  positive : 0 < size
  pages : Int

namespace Layout

variable (layout : Layout)

def pageOf (offset : Int) : Int := offset / layout.size

def start (page : Int) : Int := page * layout.size

def Inside (offset : Int) : Prop := 0 ≤ offset ∧ offset < layout.start layout.pages

instance (offset : Int) : Decidable (layout.Inside offset) :=
  inferInstanceAs (Decidable (_ ∧ _))

theorem pageOf_start_add (page : Int) {offset : Int} (lower : 0 ≤ offset)
    (upper : offset < layout.size) : layout.pageOf (layout.start page + offset) = page := by
  have positive : (0 : Int) < layout.size := Int.natCast_pos.mpr layout.positive
  rw [pageOf, start, Int.add_comm, Int.add_mul_ediv_right _ _ (Int.ne_of_gt positive),
    Int.ediv_eq_zero_of_lt lower upper, Int.zero_add]

theorem pageOf_start (page : Int) : layout.pageOf (layout.start page) = page := by
  have whole := layout.pageOf_start_add page (Int.le_refl 0)
    (Int.natCast_pos.mpr layout.positive)
  rwa [Int.add_zero] at whole

/-- The offset of an access within its page. -/
theorem within (offset : Int) :
    0 ≤ offset - layout.start (layout.pageOf offset) ∧
      offset - layout.start (layout.pageOf offset) < layout.size := by
  have positive : (0 : Int) < layout.size := Int.natCast_pos.mpr layout.positive
  have lower := Int.emod_nonneg offset (Int.ne_of_gt positive)
  have upper := Int.emod_lt_of_pos offset positive
  have whole := Int.mul_ediv_add_emod offset layout.size
  rw [start, pageOf, Int.mul_comm]
  omega

theorem Inside.page {layout : Layout} {offset : Int} (inside : layout.Inside offset) :
    0 ≤ layout.pageOf offset ∧ layout.pageOf offset < layout.pages := by
  have positive : (0 : Int) < layout.size := Int.natCast_pos.mpr layout.positive
  exact ⟨Int.ediv_nonneg inside.1 (Int.le_of_lt positive),
    Int.ediv_lt_of_lt_mul positive inside.2⟩

theorem inside_of_page {page : Int} (lower : 0 ≤ page) (upper : page < layout.pages)
    {offset : Int} (after : 0 ≤ offset) (before : offset < layout.size) :
    layout.Inside (layout.start page + offset) := by
  have positive : (0 : Int) < layout.size := Int.natCast_pos.mpr layout.positive
  have first := Int.mul_nonneg lower (Int.le_of_lt positive)
  have last := Int.mul_le_mul_of_nonneg_right (Int.add_one_le_of_lt upper)
    (Int.le_of_lt positive)
  rw [Int.add_mul, Int.one_mul] at last
  unfold Inside start
  omega

end Layout

/-- The bytes of a page that is missing mean nothing. -/
structure Region (Control : Type) where
  present : Int → Bool
  bytes : Buffer
  control : Control

/-- From its own state and the start of the page that is missing: the destination of the
copy, the bytes copied there, and the next state. -/
abbrev Pager (Control : Type) := Control → Int → Int × Buffer × Control

section Accesses

variable (layout : Layout) (pager : Pager Control)

def Region.install (destination : Int) (page : Buffer) (region : Region Control) :
    Option (Region Control) :=
  let index := layout.pageOf destination
  if destination = layout.start index ∧ 0 ≤ index ∧ index < layout.pages ∧
      region.present index = false then
    some { region with
      present := Function.update region.present index true
      bytes := fun offset =>
        if layout.pageOf offset = index then page (offset - destination)
        else region.bytes offset }
  else none

def Region.touch (offset : Int) (region : Region Control) : Option (Region Control) :=
  let index := layout.pageOf offset
  if region.present index = true then some region
  else
    let answer := pager region.control (layout.start index)
    match { region with control := answer.2.2 }.install layout answer.1 answer.2.1 with
    | none => none
    | some after => if after.present index = true then some after else none

def Region.touchEach : List Int → Region Control → Option (Region Control)
  | [], region => some region
  | offset :: rest, region =>
      match region.touch layout pager offset with
      | none => none
      | some after => after.touchEach rest

/-- The accesses of a loop that goes on until it has read a NUL. -/
def Region.touchText : Nat → Int → Region Control → Option (Region Control)
  | 0, _, region => some region
  | limit + 1, offset, region =>
      match region.touch layout pager offset with
      | none => none
      | some after =>
          if after.bytes offset = 0 then some after else after.touchText limit (offset + 1)

/-- Bytes that are accessed whatever they are, or a text that is read up to its NUL. -/
inductive Use where
  | bytes (offset : Int) (length : Nat)
  | text (offset : Int) (limit : Nat)

def usesOn : List Use → Region Control → Option (Region Control)
  | [], region => some region
  | .bytes offset length :: rest, region =>
      match region.touchEach layout pager
          ((List.range length).map (fun index : Nat => offset + index)) with
      | none => none
      | some after => usesOn rest after
  | .text offset limit :: rest, region =>
      match region.touchText layout pager limit offset with
      | none => none
      | some after => usesOn rest after

end Accesses

section Touch

variable {layout : Layout} {pager : Pager Control} {region after : Region Control}
variable {offset : Int}

theorem touch_present (present : region.present (layout.pageOf offset) = true) :
    region.touch layout pager offset = some region :=
  if_pos present

/-- A fault that the pager answers with the page that is missing. -/
theorem touch_missing (inside : layout.Inside offset)
    (missing : region.present (layout.pageOf offset) = false)
    (placed : (pager region.control (layout.start (layout.pageOf offset))).1 =
      layout.start (layout.pageOf offset)) :
    region.touch layout pager offset = some
      { present := Function.update region.present (layout.pageOf offset) true
        bytes := fun other =>
          if layout.pageOf other = layout.pageOf offset then
            (pager region.control (layout.start (layout.pageOf offset))).2.1
              (other - layout.start (layout.pageOf offset))
          else region.bytes other
        control := (pager region.control (layout.start (layout.pageOf offset))).2.2 } := by
  obtain ⟨lower, upper⟩ := inside.page
  simp only [Region.touch, missing, Bool.false_eq_true, if_false, Region.install, placed,
    layout.pageOf_start, lower, upper, Function.update_self, if_true, and_self]

end Touch

/-! ### Pages with known contents

Under a pager that fills every page from one image, the region is as good as memory that
holds the image from the start. -/

section Backed

structure Pager.Provides (layout : Layout) (good : Control → Prop) (image : Buffer)
    (pager : Pager Control) : Prop where
  placed : ∀ control page, good control → 0 ≤ page → page < layout.pages →
    (pager control (layout.start page)).1 = layout.start page
  filled : ∀ control page (offset : Int), good control → 0 ≤ page → page < layout.pages →
    0 ≤ offset → offset < layout.size →
    (pager control (layout.start page)).2.1 offset = image (layout.start page + offset)
  kept : ∀ control page, good control → 0 ≤ page → page < layout.pages →
    good (pager control (layout.start page)).2.2

/-- The region stands for the memory `plain`, which still is the image where a page is
missing. -/
structure Region.StandsFor (layout : Layout) (good : Control → Prop) (image plain : Buffer)
    (region : Region Control) : Prop where
  same : ∀ offset, layout.Inside offset → region.present (layout.pageOf offset) = true →
    region.bytes offset = plain offset
  untouched : ∀ offset, layout.Inside offset →
    region.present (layout.pageOf offset) = false → plain offset = image offset
  good : good region.control

variable {layout : Layout} {pager : Pager Control} {good : Control → Prop}
variable {image plain : Buffer} {region : Region Control}

/-- The next region stands for the same memory, has the page of the access, and has kept
the pages it had. -/
structure Region.Served (layout : Layout) (good : Control → Prop) (image plain : Buffer)
    (region : Region Control) (offsets : Int → Prop) (after : Region Control) : Prop where
  standsFor : after.StandsFor layout good image plain
  available : ∀ offset, offsets offset → after.present (layout.pageOf offset) = true
  kept : ∀ page, region.present page = true → after.present page = true

theorem Region.StandsFor.touch (standsFor : region.StandsFor layout good image plain)
    (provides : pager.Provides layout good image) {offset : Int}
    (inside : layout.Inside offset) :
    ∃ after, region.touch layout pager offset = some after ∧
      region.Served layout good image plain (fun other => other = offset) after := by
  obtain ⟨lower, upper⟩ := inside.page
  cases missing : region.present (layout.pageOf offset) with
  | true =>
      refine ⟨region, touch_present missing, standsFor, ?_, fun _page present => present⟩
      rintro other rfl
      exact missing
  | false =>
      have placed := provides.placed _ _ standsFor.good lower upper
      refine ⟨_, touch_missing inside missing placed, ⟨?_, ?_, ?_⟩, ?_, ?_⟩
      · intro other within present
        by_cases here : layout.pageOf other = layout.pageOf offset
        · have distance := layout.within other
          rw [here] at distance
          have absent : region.present (layout.pageOf other) = false := by
            rw [here]
            exact missing
          simp only [if_pos here]
          rw [provides.filled _ _ _ standsFor.good lower upper distance.1 distance.2,
            add_sub_cancel, standsFor.untouched other within absent]
        · change Function.update region.present _ true (layout.pageOf other) = true at present
          rw [Function.update_of_ne here] at present
          simp only [if_neg here]
          exact standsFor.same other within present
      · intro other within absent
        by_cases here : layout.pageOf other = layout.pageOf offset
        · simp only [here, Function.update_self] at absent
          cases absent
        · simp only [Function.update_of_ne here] at absent
          exact standsFor.untouched other within absent
      · exact provides.kept _ _ standsFor.good lower upper
      · rintro other rfl
        exact Function.update_self ..
      · intro page present
        by_cases here : page = layout.pageOf offset
        · rw [here]
          exact Function.update_self ..
        · simp only [Function.update_of_ne here]
          exact present

theorem Region.StandsFor.touchEach (standsFor : region.StandsFor layout good image plain)
    (provides : pager.Provides layout good image) (offsets : List Int)
    (inside : ∀ offset ∈ offsets, layout.Inside offset) :
    ∃ after, region.touchEach layout pager offsets = some after ∧
      region.Served layout good image plain (fun offset => offset ∈ offsets) after := by
  induction offsets generalizing region with
  | nil =>
      exact ⟨region, rfl, standsFor, fun _offset none => (by cases none), fun _page => id⟩
  | cons offset rest ih =>
      obtain ⟨middle, touched, first⟩ :=
        standsFor.touch provides (inside offset List.mem_cons_self)
      obtain ⟨after, others, later⟩ := ih first.standsFor
        (fun other member => inside other (List.mem_cons_of_mem _ member))
      refine ⟨after, ?_, later.standsFor, ?_, fun page had => later.kept page (first.kept page had)⟩
      · simp only [Region.touchEach, touched]
        exact others
      · intro other member
        rcases List.mem_cons.mp member with rfl | member
        · exact later.kept _ (first.available _ rfl)
        · exact later.available other member

/-- The text that is read afterwards is that of the memory. -/
theorem Region.StandsFor.touchText (standsFor : region.StandsFor layout good image plain)
    (provides : pager.Provides layout good image) (limit : Nat) (offset : Int)
    (inside : ∀ index : Int, 0 ≤ index → index < limit → layout.Inside (offset + index)) :
    ∃ after, region.touchText layout pager limit offset = some after ∧
      region.Served layout good image plain (fun _ => False) after ∧
      cString after.bytes offset limit = cString plain offset limit := by
  induction limit generalizing region offset with
  | zero =>
      exact ⟨region, rfl, ⟨standsFor, fun _offset none => none.elim, fun _page => id⟩, rfl⟩
  | succ limit ih =>
      have here := inside 0 (Int.le_refl 0) (by omega)
      rw [Int.add_zero] at here
      obtain ⟨middle, touched, first⟩ := standsFor.touch provides here
      have head := first.standsFor.same offset here (first.available offset rfl)
      by_cases nul : middle.bytes offset = 0
      · refine ⟨middle, ?_, ⟨first.standsFor, fun _offset none => none.elim, first.kept⟩, ?_⟩
        · simp only [Region.touchText, touched, if_pos nul]
        · rw [cString_of_nul _ _ _ nul, cString_of_nul _ _ _ (head.symm.trans nul)]
      · obtain ⟨after, others, later, text⟩ := ih first.standsFor (offset + 1) (by
          intro index lower upper
          rw [Int.add_assoc, Int.add_comm 1]
          exact inside (index + 1) (by omega) (by omega))
        have same : after.bytes offset = plain offset :=
          later.standsFor.same offset here (later.kept _ (first.available offset rfl))
        refine ⟨after, ?_, ⟨later.standsFor, fun _offset none => none.elim,
          fun page had => later.kept page (first.kept page had)⟩, ?_⟩
        · simp only [Region.touchText, touched, if_neg nul]
          exact others
        · simp only [cString, same, text]

/-- The bytes of a block are accessed one after the other. -/
theorem Region.StandsFor.touchBlock (standsFor : region.StandsFor layout good image plain)
    (provides : pager.Provides layout good image) {start : Int} {length : Nat}
    (inside : ∀ offset, start ≤ offset → offset < start + length → layout.Inside offset) :
    ∃ after, region.touchEach layout pager
        ((List.range length).map (fun index : Nat => start + index)) = some after ∧
      region.Served layout good image plain
        (fun offset => start ≤ offset ∧ offset < start + length) after := by
  obtain ⟨after, touched, served⟩ := standsFor.touchEach provides
    ((List.range length).map (fun index : Nat => start + index)) (by
      intro offset member
      obtain ⟨index, among, rfl⟩ := List.mem_map.mp member
      have below := List.mem_range.mp among
      exact inside _ (by omega) (by omega))
  refine ⟨after, touched, served.standsFor, ?_, served.kept⟩
  intro offset bounds
  apply served.available
  exact List.mem_map.mpr ⟨(offset - start).toNat, List.mem_range.mpr (by omega), by omega⟩

/-- A change of the bytes that leaves what is missing. -/
theorem Region.StandsFor.changed (standsFor : region.StandsFor layout good image plain)
    {bytes after : Buffer}
    (same : ∀ offset, region.bytes offset = plain offset → bytes offset = after offset)
    (frame : ∀ offset, layout.Inside offset →
      region.present (layout.pageOf offset) = false → after offset = plain offset) :
    Region.StandsFor layout good image after { region with bytes := bytes } where
  same offset inside present := same offset (standsFor.same offset inside present)
  untouched offset inside missing :=
    (frame offset inside missing).trans (standsFor.untouched offset inside missing)
  good := standsFor.good

/-- What is missing lies outside of a block whose pages have come. -/
theorem outside_of_missing {start length offset : Int}
    (available : ∀ offset, start ≤ offset ∧ offset < start + length →
      region.present (layout.pageOf offset) = true)
    (missing : region.present (layout.pageOf offset) = false) :
    offset < start ∨ start + length ≤ offset := by
  by_contra inside
  rw [available offset (by omega)] at missing
  cases missing

theorem Region.StandsFor.cleared (standsFor : region.StandsFor layout good image plain)
    {start : Int} {length : Nat}
    (available : ∀ offset, start ≤ offset ∧ offset < start + length →
      region.present (layout.pageOf offset) = true) (byte : UInt8) :
    Region.StandsFor layout good image (memset plain start byte length)
      { region with bytes := memset region.bytes start byte length } := by
  apply standsFor.changed
  · intro offset same
    rw [memset, memset, same]
  · intro offset _inside missing
    exact memset_outside _ _ _ _ (outside_of_missing available missing)

theorem Region.StandsFor.copied (standsFor : region.StandsFor layout good image plain)
    {start : Int} {text : List UInt8}
    (available : ∀ offset, start ≤ offset ∧ offset < start + text.length →
      region.present (layout.pageOf offset) = true) :
    Region.StandsFor layout good image (memcpy plain start text)
      { region with bytes := memcpy region.bytes start text } := by
  apply standsFor.changed
  · intro offset same
    exact memcpy_congr start text same
  · intro offset _inside missing
    exact memcpy_outside _ _ _ (outside_of_missing available missing)

end Backed

/-! ### Pages in the order of their faults

Under a pager that counts, a page holds what the count was when it was first accessed, so
the contents record the order of the first accesses. -/

section Counted

/-- Every fault is answered with a page of one byte, that of the faults so far. -/
structure Pager.Counts (layout : Layout) (count : Control → Nat) (fill : Nat → UInt8)
    (good : Control → Prop) (pager : Pager Control) : Prop where
  placed : ∀ control page, good control → 0 ≤ page → page < layout.pages →
    (pager control (layout.start page)).1 = layout.start page
  filled : ∀ control page (offset : Int), good control → 0 ≤ page → page < layout.pages →
    0 ≤ offset → offset < layout.size →
    (pager control (layout.start page)).2.1 offset = fill (count control)
  counted : ∀ control page, good control → 0 ≤ page → page < layout.pages →
    count (pager control (layout.start page)).2.2 = count control + 1
  kept : ∀ control page, good control → 0 ≤ page → page < layout.pages →
    good (pager control (layout.start page)).2.2

/-- The pages that are present came in the order `order`, and each holds its number. -/
structure Region.FilledIn (layout : Layout) (count : Control → Nat) (fill : Nat → UInt8)
    (good : Control → Prop) (order : List Int) (region : Region Control) : Prop where
  present : ∀ page, region.present page = true ↔ page ∈ order
  bytes : ∀ offset, layout.pageOf offset ∈ order →
    region.bytes offset = fill (order.idxOf (layout.pageOf offset))
  counted : count region.control = order.length
  good : good region.control

variable {layout : Layout} {pager : Pager Control} {count : Control → Nat}
variable {fill : Nat → UInt8} {good : Control → Prop} {order : List Int}
variable {region : Region Control}

/-- An access to a page that has come changes nothing. -/
theorem Region.FilledIn.again (filledIn : region.FilledIn layout count fill good order)
    {offset : Int} (come : layout.pageOf offset ∈ order) :
    region.touch layout pager offset = some region :=
  touch_present ((filledIn.present _).mpr come)

/-- A first access brings its page, filled with the number of faults before. -/
theorem Region.FilledIn.first (filledIn : region.FilledIn layout count fill good order)
    (counts : pager.Counts layout count fill good) {offset : Int}
    (inside : layout.Inside offset) (new : layout.pageOf offset ∉ order) :
    ∃ after, region.touch layout pager offset = some after ∧
      after.FilledIn layout count fill good (order ++ [layout.pageOf offset]) := by
  obtain ⟨lower, upper⟩ := inside.page
  have missing : region.present (layout.pageOf offset) = false := by
    cases present : region.present (layout.pageOf offset) with
    | true => exact absurd ((filledIn.present _).mp present) new
    | false => rfl
  have placed := counts.placed _ _ filledIn.good lower upper
  refine ⟨_, touch_missing inside missing placed, ⟨?_, ?_, ?_, ?_⟩⟩
  · intro page
    rw [List.mem_append, List.mem_singleton, ← filledIn.present page]
    by_cases here : page = layout.pageOf offset
    · simp [here]
    · simp [here]
  · intro other come
    by_cases here : layout.pageOf other = layout.pageOf offset
    · have distance := layout.within other
      rw [here] at distance
      simp only [if_pos here]
      rw [counts.filled _ _ _ filledIn.good lower upper distance.1 distance.2, here,
        List.idxOf_append_of_notMem new, List.idxOf_cons_self, filledIn.counted, Nat.add_zero]
    · have earlier : layout.pageOf other ∈ order := by
        rcases List.mem_append.mp come with earlier | last
        · exact earlier
        · exact absurd (List.mem_singleton.mp last) here
      simp only [if_neg here]
      rw [filledIn.bytes other earlier, List.idxOf_append_of_mem earlier]
  · rw [List.length_append, List.length_singleton]
    exact (counts.counted _ _ filledIn.good lower upper).trans
      (congrArg (· + 1) filledIn.counted)
  · exact counts.kept _ _ filledIn.good lower upper

end Counted

end LKP.DemandPaging
