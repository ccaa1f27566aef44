import LKP.Dsm.Undisturbed

/-
Traffic on other pages does not change what happens to a page.

The run without the other pages' commands and receipts is followed step by step
beside the whole run.  The two agree on the page's entry and bytes, on the parts
of `temp_data` and of the structs in flight that the receive loop looks at for this
page, and on the connection of a menu that waits for it.
-/

set_option autoImplicit false

namespace LKP.Dsm

open TransitionRun CBuffer

/-! ### The restricted run -/

def Event.page (s : System) : Event → Option Int
  | .read _ page | .write _ page _ | .select _ page => some page
  | .receive x => (s.machine x).menu.awaiting.map Prod.fst
  | .serve x => (s.inbox x).head?.map ProcInfo.pageNum
  | .enter _ _ | .iterate _ => none

/-- The events that remain when the commands on other pages are deleted together with
the receipt of their structs and of their replies. -/
def onlyPage (setup : Setup) (page : Int) (start : System) (events : List Event) :
    List Event :=
  restrict (step setup) (fun s event => decide (event.page s = some page)) start events

/-- The replies to the read misses of a page: who read, and the bytes sent. -/
def repliesOn (page : Int) (outputs : List Output) : List (Host × List UInt8) :=
  outputs.filterMap fun output =>
    match output with
    | .replied reader answered text => if answered = page then some (reader, text) else none
    | _ => none

theorem repliesOn_append (page : Int) (outputs shown : List Output) :
    repliesOn page (outputs ++ shown) = repliesOn page outputs ++ repliesOn page shown :=
  List.filterMap_append ..

theorem repliesOn_silent (page : Int) {shown : List Output}
    (noReply : ∀ reader answered text, Output.replied reader answered text ∉ shown) :
    repliesOn page shown = [] := by
  apply List.filterMap_eq_nil_iff.mpr
  intro output member
  cases output with
  | sent x data => rfl
  | replied reader answered text => exact absurd member (noReply reader answered text)
  | displayed x text => rfl

/-! ### What the two runs agree on -/

/-- Two structs about the page that no receiver can tell apart. -/
structure Alike (page : Int) (left right : ProcInfo) : Prop where
  leftPage : left.pageNum = page
  rightPage : right.pageNum = page
  accessPage : right.accessPage = left.accessPage
  readSignal : right.readSignal page = left.readSignal page
  busRequest : right.busRequest page ↔ left.busRequest page
  invalidates : (right.readSignal page = 0 ∨ right.invalidateSignal page = 1) ↔
    (left.readSignal page = 0 ∨ left.invalidateSignal page = 1)

theorem Alike.serverEntry {page : Int} {left right : ProcInfo} (alike : Alike page left right)
    (entry : MSIList) : serverEntry entry right = serverEntry entry left := by
  unfold LKP.Dsm.serverEntry
  simp only [alike.leftPage, alike.rightPage, alike.readSignal, alike.busRequest]
  have invalidates := alike.invalidates
  rw [alike.readSignal] at invalidates
  simp only [invalidates]

theorem Alike.serverReply {page : Int} {left right : ProcInfo} (alike : Alike page left right)
    (entry : MSIList) (text : List UInt8) :
    serverReply entry right text = serverReply entry left text := by
  unfold LKP.Dsm.serverReply
  simp only [alike.leftPage, alike.rightPage, alike.readSignal, alike.busRequest]

structure Twin (setup : Setup) (page : Int) (whole part : Machine) : Prop where
  entry : part.listMSI page = whole.listMSI page
  bytes : ∀ offset : Int, page * setup.pageSize ≤ offset →
    offset < page * setup.pageSize + setup.pageSize → part.addr offset = whole.addr offset
  bus : whole.listMSI page ≠ .shared →
    (part.tempData.busRequest page ↔ whole.tempData.busRequest page)
  quiet : whole.listMSI page = .modified → part.tempData.readSignal page = 0

/-- In the restricted run a menu that waits for another page is at its prompt. -/
def Shadow (page : Int) (menu : Menu) (unread : List UInt8) (partMenu : Menu)
    (partUnread : List UInt8) : Prop :=
  if menu = .awaitReply page then partMenu = menu ∧ partUnread = unread
  else partMenu = .prompt ∧ partUnread = []

def structsOn (page : Int) (structs : List ProcInfo) : List ProcInfo :=
  structs.filter (fun data => decide (data.pageNum = page))

structure Mirrors (setup : Setup) (page : Int) (whole part : System) : Prop where
  twins : ∀ x, Twin setup page (whole.machine x) (part.machine x)
  menus : ∀ x, Shadow page (whole.machine x).menu (whole.replies x)
    (part.machine x).menu (part.replies x)
  structs : ∀ x, List.Forall₂ (Alike page) (structsOn page (whole.inbox x)) (part.inbox x)

theorem Initial.mirrors {setup : Setup} {s : System} (initial : Initial setup s)
    {page : Int} (inRange : setup.InRange page) : Mirrors setup page s s where
  twins x :=
    { entry := rfl
      bytes := fun _ _ _ => rfl
      bus := fun _ => Iff.rfl
      quiet := by
        intro owned
        rw [initial.invalid x page inRange] at owned
        cases owned }
  menus x := by
    rw [initial.prompt x, initial.repliesEmpty x, Shadow, if_neg (by simp)]
    exact ⟨rfl, rfl⟩
  structs x := by
    rw [initial.inboxEmpty x]
    exact .nil

section Lists

variable {page : Int} {whole part : List ProcInfo} {left right : ProcInfo}

theorem structsOn_post_other (structs : List ProcInfo) (other : left.pageNum ≠ page) :
    structsOn page (structs ++ [left]) = structsOn page structs := by
  simp only [structsOn, List.filter_append, List.filter_singleton, other, decide_false,
    Bool.cond_false, List.append_nil]

theorem structsOn_cons_other (rest : List ProcInfo) (other : left.pageNum ≠ page) :
    structsOn page (left :: rest) = structsOn page rest :=
  List.filter_cons_of_neg (by simpa using other)

theorem structsOn_cons_same (rest : List ProcInfo) (same : left.pageNum = page) :
    structsOn page (left :: rest) = left :: structsOn page rest :=
  List.filter_cons_of_pos (by simpa using same)

theorem alike_post (before : List.Forall₂ (Alike page) (structsOn page whole) part)
    (alike : Alike page left right) :
    List.Forall₂ (Alike page) (structsOn page (whole ++ [left])) (part ++ [right]) := by
  have kept : structsOn page (whole ++ [left]) = structsOn page whole ++ [left] := by
    simp only [structsOn, List.filter_append, List.filter_singleton, alike.leftPage,
      decide_true, Bool.cond_true]
  rw [kept]
  exact List.rel_append before (.cons alike .nil)

end Lists

/-! ### The same command on both sides -/

section Twins

variable {setup : Setup} {page : Int} {whole part : Machine}

/-- A step on another page changes nothing the counterpart shares. -/
theorem Twin.other (twin : Twin setup page whole part) {after : Machine}
    (entry : after.listMSI page = whole.listMSI page)
    (bytes : ∀ offset : Int, page * setup.pageSize ≤ offset →
      offset < page * setup.pageSize + setup.pageSize → after.addr offset = whole.addr offset)
    (bus : whole.listMSI page ≠ .shared →
      (after.tempData.busRequest page ↔ whole.tempData.busRequest page)) :
    Twin setup page after part where
  entry := twin.entry.trans entry.symm
  bytes offset lower upper :=
    (twin.bytes offset lower upper).trans (bytes offset lower upper).symm
  bus unshared := by
    rw [entry] at unshared
    exact (twin.bus unshared).trans (bus unshared).symm
  quiet owned := by
    rw [entry] at owned
    exact twin.quiet owned

theorem Twin.afterHit (twin : Twin setup page whole part) (next : Menu) :
    Twin setup page (whole.afterHit setup page next) (part.afterHit setup page next) where
  entry := twin.entry
  bytes := twin.bytes
  bus := twin.bus
  quiet := twin.quiet

theorem Twin.afterMiss (whole part : Machine) (next : Menu) :
    Twin setup page (whole.afterMiss setup page next) (part.afterMiss setup page next) where
  entry := by rw [afterMiss_listMSI, afterMiss_listMSI, Function.update_self,
    Function.update_self]
  bytes offset lower upper := by
    rw [afterMiss_addr, afterMiss_addr, memset_inside _ _ _ _ lower upper,
      memset_inside _ _ _ _ lower upper]
  bus unshared := by
    rw [afterMiss_listMSI, Function.update_self] at unshared
    exact absurd rfl unshared
  quiet owned := by
    rw [afterMiss_listMSI, Function.update_self] at owned
    cases owned

theorem Twin.readRequest (twin : Twin setup page whole part)
    (absent : (whole.listMSI page).I = true) :
    Alike page (readRequest setup page whole.tempData)
      (readRequest setup page part.tempData) where
  leftPage := rfl
  rightPage := rfl
  accessPage := rfl
  readSignal := by rw [readRequest_readSignal, readRequest_readSignal]
  busRequest := by
    apply twin.bus
    intro shared
    rw [shared] at absent
    cases absent
  invalidates := by
    rw [readRequest_readSignal, readRequest_readSignal, readRequest_invalidateSignal,
      readRequest_invalidateSignal]

theorem Twin.writeRequest (twin : Twin setup page whole part)
    (oneHot : (whole.listMSI page).OneHot)
    (quiet : whole.listMSI page = .modified → whole.tempData.readSignal page = 0) :
    Alike page (writeRequest setup (whole.listMSI page) page whole.tempData)
      (writeRequest setup (part.listMSI page) page part.tempData) := by
  have off : ∀ data : ProcInfo, (whole.listMSI page = .modified → data.readSignal page = 0) →
      (LKP.Dsm.writeRequest setup (whole.listMSI page) page data).readSignal page = 0 := by
    intro data owner
    by_cases owned : whole.listMSI page = .modified
    · rw [owned, writeRequest_modified]
      exact owner owned
    · exact writeRequest_readSignal_off setup oneHot owned page data
  rw [twin.entry]
  have left := off whole.tempData quiet
  have right := off part.tempData twin.quiet
  refine ⟨rfl, rfl, rfl, right.trans left.symm, ?_, ?_⟩
  · rcases oneHot with modified | shared | invalid
    · rw [modified, writeRequest_modified, writeRequest_modified]
      exact twin.bus (by rw [modified]; decide)
    · rw [shared]
      exact iff_of_true (.inl (Function.update_self ..)) (.inl (Function.update_self ..))
    · rw [invalid]
      exact iff_of_true (.inr (Function.update_self ..)) (.inr (Function.update_self ..))
  · exact iff_of_true (.inl right) (.inl left)

theorem Twin.afterWrite (twin : Twin setup page whole part)
    (alike : Alike page (LKP.Dsm.writeRequest setup (whole.listMSI page) page whole.tempData)
      (LKP.Dsm.writeRequest setup (part.listMSI page) page part.tempData))
    (off : (LKP.Dsm.writeRequest setup (whole.listMSI page) page
      whole.tempData).readSignal page = 0)
    (message : List UInt8) (next : Menu) :
    Twin setup page (whole.afterWrite setup page message next)
      (part.afterWrite setup page message next) where
  entry := by rw [afterWrite_listMSI, afterWrite_listMSI, Function.update_self,
    Function.update_self]
  bytes offset lower upper := by
    rw [afterWrite_addr, afterWrite_addr]
    unfold memcpy
    rw [twin.bytes offset lower upper]
  bus _unshared := alike.busRequest
  quiet _owned := alike.readSignal.trans off

theorem Twin.received (twin : Twin setup page whole part) (next : Menu)
    (bytes partBytes : List UInt8) :
    Twin setup page (menuReceive setup page next bytes whole).1
      (menuReceive setup page next partBytes part).1 where
  entry := twin.entry
  bytes := twin.bytes
  bus := twin.bus
  quiet _owned := Function.update_self ..

theorem Twin.afterServe (twin : Twin setup page whole part) {left right : ProcInfo}
    (alike : Alike page left right) (plain : left.Plain)
    (oneHot : (whole.listMSI page).OneHot) :
    Twin setup page (whole.afterServe left) (part.afterServe right) where
  entry := by
    rw [afterServe_listMSI, afterServe_listMSI, alike.leftPage, alike.rightPage,
      Function.update_self, Function.update_self, twin.entry, alike.serverEntry]
  bytes := twin.bytes
  bus _unshared := alike.busRequest
  quiet owned := by
    rw [afterServe_listMSI, alike.leftPage, Function.update_self] at owned
    exact absurd owned (serverEntry_plain oneHot plain)

end Twins

theorem Mirrors.answer {setup : Setup} {page : Int} {whole part : System}
    (mirrors : Mirrors setup page whole part) {x : Host} {left right : ProcInfo}
    (alike : Alike page left right) (names : left.Names setup)
    (terminated : (whole.machine x).Terminated setup) :
    part.answer setup x right = whole.answer setup x left := by
  have positive := setup.pageSize_pos
  have twin := mirrors.twins x
  obtain ⟨inRange, position⟩ := names
  rw [alike.leftPage] at inRange position
  unfold System.answer
  rw [alike.serverReply, alike.accessPage, alike.rightPage, alike.leftPage, twin.entry,
    position]
  congr 1
  apply cString_congr_of_nul _ _ (setup.pageSize - 1)
  · intro index lower upper
    exact twin.bytes index lower (by omega)
  · exact terminated page inRange

/-! ### Steps of both runs and steps of the whole run alone -/

section Shadows

variable {page : Int} {menu partMenu : Menu} {unread partUnread : List UInt8}

theorem Shadow.ready (shadow : Shadow page .prompt unread partMenu partUnread) :
    partMenu = .prompt ∧ partUnread = [] := by
  rw [Shadow, if_neg (by simp)] at shadow
  exact shadow

theorem Shadow.waiting (shadow : Shadow page (.awaitReply page) unread partMenu partUnread) :
    partMenu = .awaitReply page ∧ partUnread = unread := by
  rw [Shadow, if_pos rfl] at shadow
  exact shadow

theorem Shadow.elsewhere (other : menu ≠ .awaitReply page)
    (shadow : Shadow page menu unread partMenu partUnread) :
    partMenu = .prompt ∧ partUnread = [] := by
  rw [Shadow, if_neg other] at shadow
  exact shadow

theorem shadow_same (menu : Menu) (known : menu = .awaitReply page ∨ menu = .prompt)
    (empty : unread = []) : Shadow page menu unread menu [] := by
  rcases known with rfl | rfl
  · rw [Shadow, if_pos rfl]
    exact ⟨rfl, empty.symm⟩
  · rw [Shadow, if_neg (by simp)]
    exact ⟨rfl, rfl⟩

theorem Shadow.append (shadow : Shadow page menu unread partMenu partUnread)
    {text : List UInt8} (awaited : text ≠ [] → menu = .awaitReply page) :
    Shadow page menu (unread ++ text) partMenu (partUnread ++ text) := by
  by_cases empty : text = []
  · rw [empty, List.append_nil, List.append_nil]
    exact shadow
  · have blocked := awaited empty
    subst blocked
    obtain ⟨rfl, rfl⟩ := shadow.waiting
    rw [Shadow, if_pos rfl]
    exact ⟨rfl, rfl⟩

theorem Shadow.append_other (shadow : Shadow page menu unread partMenu partUnread)
    {text : List UInt8} (unawaited : text ≠ [] → menu ≠ .awaitReply page) :
    Shadow page menu (unread ++ text) partMenu partUnread := by
  by_cases empty : text = []
  · rw [empty, List.append_nil]
    exact shadow
  · obtain ⟨rfl, rfl⟩ := shadow.elsewhere (unawaited empty)
    rw [Shadow, if_neg (unawaited empty)]
    exact ⟨rfl, rfl⟩

theorem shadow_other (other : menu ≠ .awaitReply page) :
    Shadow page menu unread .prompt [] := by
  rw [Shadow, if_neg other]
  exact ⟨rfl, rfl⟩

end Shadows

section Steps

variable {setup : Setup} {page : Int} {whole part : System}

@[simp] theorem System.put_self (s : System) (x : Host) : s.put x (s.machine x) = s := by
  unfold System.put
  rw [Function.update_eq_self]

@[simp] theorem System.unread_self (s : System) (x : Host) : s.unread x (s.replies x) = s := by
  unfold System.unread
  rw [Function.update_eq_self]

theorem Mirrors.update (mirrors : Mirrors setup page whole part) {x : Host}
    {machine partMachine : Machine} {left partLeft : List UInt8}
    (twin : Twin setup page machine partMachine)
    (shadow : Shadow page machine.menu left partMachine.menu partLeft) :
    Mirrors setup page ((whole.unread x left).put x machine)
      ((part.unread x partLeft).put x partMachine) where
  twins z := by
    rcases Host.eq_or_eq_peer x z with rfl | rfl
    · rw [System.put_machine_self, System.put_machine_self]
      exact twin
    · rw [System.put_machine_peer, System.put_machine_peer]
      exact mirrors.twins x.peer
  menus z := by
    rcases Host.eq_or_eq_peer x z with rfl | rfl
    · rw [System.put_machine_self, System.put_machine_self, System.put_replies,
        System.put_replies, System.unread_replies_self, System.unread_replies_self]
      exact shadow
    · rw [System.put_machine_peer, System.put_machine_peer, System.put_replies,
        System.put_replies, System.unread_replies_peer, System.unread_replies_peer]
      exact mirrors.menus x.peer
  structs := mirrors.structs

theorem Mirrors.command (mirrors : Mirrors setup page whole part) {x : Host}
    {machine partMachine : Machine} (twin : Twin setup page machine partMachine)
    (ready : (whole.machine x).menu = .prompt) (read : whole.replies x = [])
    (known : machine.menu = .awaitReply page ∨ machine.menu = .prompt)
    (same : partMachine.menu = machine.menu) :
    Mirrors setup page (whole.put x machine) (part.put x partMachine) := by
  have shadow := mirrors.menus x
  rw [ready] at shadow
  obtain ⟨_prompt, none⟩ := shadow.ready
  rw [← whole.unread_self x, ← part.unread_self x]
  apply mirrors.update twin
  rw [same, none]
  exact shadow_same _ known read

theorem Mirrors.command_other (mirrors : Mirrors setup page whole part) {x : Host}
    {machine : Machine} (twin : Twin setup page machine (part.machine x))
    (ready : (whole.machine x).menu = .prompt) (other : machine.menu ≠ .awaitReply page) :
    Mirrors setup page (whole.put x machine) part := by
  have shadow := mirrors.menus x
  rw [ready] at shadow
  obtain ⟨prompt, none⟩ := shadow.ready
  rw [← whole.unread_self x, ← part.put_self x, ← part.unread_self x]
  apply mirrors.update twin
  rw [prompt, none]
  exact shadow_other other

theorem Mirrors.post (mirrors : Mirrors setup page whole part) (x : Host)
    {left right : ProcInfo} (alike : Alike page left right) :
    Mirrors setup page (whole.post x left) (part.post x right) where
  twins := mirrors.twins
  menus := mirrors.menus
  structs z := by
    rcases Host.eq_or_eq_peer x z with rfl | rfl
    · rw [System.post_inbox_self, System.post_inbox_self]
      exact mirrors.structs z
    · rw [System.post_inbox_peer, System.post_inbox_peer]
      exact alike_post (mirrors.structs x.peer) alike

theorem Mirrors.post_other (mirrors : Mirrors setup page whole part) (x : Host)
    {data : ProcInfo} (other : data.pageNum ≠ page) :
    Mirrors setup page (whole.post x data) part where
  twins := mirrors.twins
  menus := mirrors.menus
  structs z := by
    rcases Host.eq_or_eq_peer x z with rfl | rfl
    · rw [System.post_inbox_self]
      exact mirrors.structs z
    · rw [System.post_inbox_peer, structsOn_post_other _ other]
      exact mirrors.structs x.peer

/-- A menu whose struct is answered waits for the page the struct names. -/
theorem Ordered.awaited (ordered : Ordered setup whole) {x : Host} {data : ProcInfo}
    (member : data ∈ whole.inbox x)
    (answered : (whole.answer setup x data).getD [] ≠ []) :
    (whole.machine x.peer).menu = .awaitReply data.pageNum := by
  have asks : data.asks = true := by
    rw [← Bool.not_eq_false]
    intro silent
    rw [System.answer_of_silent silent] at answered
    exact answered rfl
  have owed := ordered.owed x.peer
  rw [Host.peer_peer] at owed
  obtain ⟨⟨next, blocked⟩, _unread⟩ := owed.request_inv member asks
  rcases ordered.menus x.peer with prompt | ⟨index, _inRange, waiting⟩
  · rw [prompt] at blocked
    cases blocked
  · rw [waiting] at blocked ⊢
    cases blocked
    rfl

theorem Mirrors.serve (mirrors : Mirrors setup page whole part) (ordered : Ordered setup whole)
    {x : Host} {left right : ProcInfo} {rest partRest : List ProcInfo}
    (oldest : whole.inbox x = left :: rest) (inRange : setup.InRange page)
    (alike : Alike page left right)
    (others : List.Forall₂ (Alike page) (structsOn page rest) partRest)
    (same : part.answer setup x right = whole.answer setup x left) :
    Mirrors setup page (whole.serve setup x left rest).1
      (part.serve setup x right partRest).1 := by
  have member : left ∈ whole.inbox x := by
    rw [oldest]
    exact List.mem_cons_self
  constructor
  · intro z
    rcases Host.eq_or_eq_peer x z with rfl | rfl
    · rw [System.serve_machine_self, System.serve_machine_self]
      exact (mirrors.twins z).afterServe alike (ordered.plain z left member)
        (ordered.table z page inRange)
    · rw [System.serve_machine_peer, System.serve_machine_peer]
      exact mirrors.twins x.peer
  · intro z
    rcases Host.eq_or_eq_peer x z with rfl | rfl
    · rw [System.serve_machine_self, System.serve_machine_self, System.serve_replies_self,
        System.serve_replies_self]
      exact mirrors.menus z
    · rw [System.serve_machine_peer, System.serve_machine_peer, System.serve_replies_peer,
        System.serve_replies_peer, same]
      apply (mirrors.menus x.peer).append
      intro answered
      rw [ordered.awaited member answered, alike.leftPage]
  · intro z
    rcases Host.eq_or_eq_peer x z with rfl | rfl
    · rw [System.serve_inbox_self, System.serve_inbox_self]
      exact others
    · rw [System.serve_inbox_peer, System.serve_inbox_peer]
      exact mirrors.structs x.peer

theorem Mirrors.serve_other (mirrors : Mirrors setup page whole part)
    (ordered : Ordered setup whole) {x : Host} {data : ProcInfo} {rest : List ProcInfo}
    (oldest : whole.inbox x = data :: rest) (other : data.pageNum ≠ page)
    (bus : (whole.machine x).listMSI page ≠ .shared →
      (data.busRequest page ↔ (whole.machine x).tempData.busRequest page)) :
    Mirrors setup page (whole.serve setup x data rest).1 part := by
  have member : data ∈ whole.inbox x := by
    rw [oldest]
    exact List.mem_cons_self
  constructor
  · intro z
    rcases Host.eq_or_eq_peer x z with rfl | rfl
    · rw [System.serve_machine_self]
      exact (mirrors.twins z).other (Function.update_of_ne (Ne.symm other) ..)
        (fun _ _ _ => rfl) bus
    · rw [System.serve_machine_peer]
      exact mirrors.twins x.peer
  · intro z
    rcases Host.eq_or_eq_peer x z with rfl | rfl
    · rw [System.serve_machine_self, System.serve_replies_self]
      exact mirrors.menus z
    · rw [System.serve_machine_peer, System.serve_replies_peer]
      apply (mirrors.menus x.peer).append_other
      intro answered blocked
      rw [ordered.awaited member answered] at blocked
      exact other (Menu.awaitReply.inj blocked)
  · intro z
    rcases Host.eq_or_eq_peer x z with rfl | rfl
    · rw [System.serve_inbox_self, ← structsOn_cons_other rest other, ← oldest]
      exact mirrors.structs z
    · rw [System.serve_inbox_peer]
      exact mirrors.structs x.peer

theorem Ordered.read (ordered : Ordered setup whole) {x : Host}
    (unblocked : (whole.machine x).menu.awaiting = none) : whole.replies x = [] := by
  have owed := ordered.owed x
  rw [unblocked] at owed
  exact owed.idle_inv.2

theorem Ordered.blocked (ordered : Ordered setup whole) {x : Host} {index : Int} {next : Menu}
    (waiting : (whole.machine x).menu.awaiting = some (index, next)) :
    (whole.machine x).menu = .awaitReply index ∧ next = .prompt := by
  rcases ordered.menus x with prompt | ⟨page, _inRange, blocked⟩
  · rw [prompt] at waiting
    cases waiting
  · rw [blocked] at waiting ⊢
    cases waiting
    exact ⟨rfl, rfl⟩

end Steps

section Moves

variable {setup : Setup} {page : Int} {s after part : System} {event : Event}
variable {shown : List Output}

/-- An event on another page: the restricted run stays where it is. -/
theorem Move.mirrors_other (move : Move setup s event after shown) (ordered : Ordered setup s)
    (undisturbed : Undisturbed setup s event) (inRange : setup.InRange page)
    (elsewhere : event.page s ≠ some page) (mirrors : Mirrors setup page s part) :
    Mirrors setup page after part ∧ repliesOn page shown = [] := by
  cases move with
  | hit x index shown ready _named _held noReply =>
      refine ⟨mirrors.command_other ?_ ready (by simp), repliesOn_silent page noReply⟩
      exact (mirrors.twins x).other rfl (fun _ _ _ => rfl) (fun _ => Iff.rfl)
  | miss x index ready _named _absent =>
      have other : page ≠ index := fun same => elsewhere (congrArg some same.symm)
      refine ⟨Mirrors.post_other (mirrors.command_other ?_ ready ?_) x (Ne.symm other),
        repliesOn_silent page (by simp)⟩
      · exact (mirrors.twins x).other (Function.update_of_ne other ..)
          (fun _ lower upper => afterMiss_addr_other setup other _ _ lower upper)
          (fun _ => Iff.rfl)
      · intro blocked
        exact other (Menu.awaitReply.inj blocked).symm
  | write x index message ready _named =>
      have other : page ≠ index := fun same => elsewhere (congrArg some same.symm)
      change (strBytes message).length < setup.pageSize at undisturbed
      refine ⟨Mirrors.post_other (mirrors.command_other ?_ ready (by simp)) x (Ne.symm other),
        repliesOn_silent page (by simp)⟩
      apply (mirrors.twins x).other (Function.update_of_ne other ..)
      · intro offset lower upper
        exact afterWrite_addr_other setup other message (Nat.le_of_lt undisturbed) _ _ lower
          upper
      · intro _unshared
        have signals := writeSignals_other ((s.machine x).listMSI index) other
          (s.machine x).tempData
        exact or_congr (by rw [← signals.2.2]; exact Iff.rfl) (by rw [← signals.2.1]; exact Iff.rfl)
  | receive x index next text waiting _available =>
      have blocked := ordered.blocked waiting
      have other : index ≠ page := by
        intro same
        subst same
        apply elsewhere
        simp only [Event.page, waiting, Option.map_some]
      refine ⟨?_, repliesOn_silent page (by simp)⟩
      obtain ⟨prompt, none⟩ := (mirrors.menus x).elsewhere (by
        rw [blocked.1]
        exact fun same => other (Menu.awaitReply.inj same))
      rw [← part.put_self x, ← part.unread_self x]
      apply mirrors.update
      · exact (mirrors.twins x).other rfl (fun _ _ _ => rfl) (fun _ => Iff.rfl)
      · rw [System.unread_machine, prompt, none, menuReceive_menu, blocked.2]
        exact shadow_other (by simp)
  | serve x recvData rest oldest =>
      have other : recvData.pageNum ≠ page := by
        intro same
        apply elsewhere
        simp only [Event.page, oldest, List.head?_cons, Option.map_some, same]
      refine ⟨mirrors.serve_other ordered oldest other ?_, ?_⟩
      · exact (undisturbed recvData (by rw [oldest]; rfl) page inRange (Ne.symm other)).1
      · rw [System.serve_outputs]
        split
        · rfl
        · simp [repliesOn, other]

/-- An event on the page: the restricted run takes it too. -/
theorem Move.mirrors_same (move : Move setup s event after shown) (ordered : Ordered setup s)
    (next : Ordered setup after) (inRange : setup.InRange page)
    (here : event.page s = some page) (mirrors : Mirrors setup page s part) :
    ∃ partAfter partShown, step setup part event = some (partAfter, partShown) ∧
      Mirrors setup page after partAfter ∧ repliesOn page partShown = repliesOn page shown := by
  cases move with
  | hit x index shown ready _named held noReply =>
      obtain rfl : index = page := Option.some.inj here
      have idle : s.replies x = [] := ordered.read (by rw [ready]; rfl)
      have shadow := mirrors.menus x
      rw [ready] at shadow
      have present : ((part.machine x).listMSI index).I ≠ true := by
        rw [(mirrors.twins x).entry]
        intro absent
        rcases ordered.table x index inRange with same | same | same
        · rw [same] at absent
          cases absent
        · rw [same] at absent
          cases absent
        · exact held same
      obtain ⟨partShown, accepted, partSilent⟩ := step_hit shadow.ready.1 inRange present
      refine ⟨_, partShown, accepted, ?_, ?_⟩
      · exact mirrors.command ((mirrors.twins x).afterHit .prompt) ready idle (.inr rfl) rfl
      · rw [repliesOn_silent index partSilent, repliesOn_silent index noReply]
  | miss x index ready _named absent =>
      obtain rfl : index = page := Option.some.inj here
      have idle : s.replies x = [] := ordered.read (by rw [ready]; rfl)
      have shadow := mirrors.menus x
      rw [ready] at shadow
      have partAbsent : ((part.machine x).listMSI index).I = true := by
        rw [(mirrors.twins x).entry]
        exact absent
      refine ⟨_, _, step_miss shadow.ready.1 inRange partAbsent, ?_, ?_⟩
      · apply Mirrors.post
        · exact mirrors.command (Twin.afterMiss ..) ready idle (.inl rfl) rfl
        · exact (mirrors.twins x).readRequest absent
      · rw [repliesOn_silent index (by simp), repliesOn_silent index (by simp)]
  | write x index message ready _named =>
      obtain rfl : index = page := Option.some.inj here
      have idle : s.replies x = [] := ordered.read (by rw [ready]; rfl)
      have shadow := mirrors.menus x
      rw [ready] at shadow
      have alike := (mirrors.twins x).writeRequest (ordered.table x index inRange)
        (ordered.quiet x index inRange)
      have off := writeRequest_off (ordered.quiet x) inRange (ordered.table x index inRange)
      refine ⟨_, _, step_write shadow.ready.1 inRange message, ?_, ?_⟩
      · apply Mirrors.post
        · exact mirrors.command ((mirrors.twins x).afterWrite alike off message .prompt) ready
            idle (.inr rfl) rfl
        · exact alike
      · rw [repliesOn_silent index (by simp), repliesOn_silent index (by simp)]
  | receive x index next text waiting available =>
      obtain ⟨blocked, rfl⟩ := ordered.blocked waiting
      simp only [Event.page, waiting, Option.map_some, Option.some.injEq] at here
      subst here
      have shadow := mirrors.menus x
      rw [blocked] at shadow
      obtain ⟨partBlocked, same⟩ := shadow.waiting
      have partWaiting : (part.machine x).menu.awaiting = some (index, .prompt) := by
        rw [partBlocked]
        rfl
      have partAvailable : part.replies x ≠ [] := by
        rw [same]
        exact available
      have read := next.read (x := x) (by rw [System.put_machine_self]; rfl)
      obtain ⟨partText, accepted⟩ : ∃ text, step setup part (.receive x) = some _ :=
        step_receive partWaiting partAvailable
      refine ⟨_, _, accepted, ?_, ?_⟩
      · apply mirrors.update
        · exact (mirrors.twins x).received .prompt _ _
        · rw [System.put_replies, System.unread_replies_self] at read
          rw [same, read]
          exact shadow_other (by simp)
      · rw [repliesOn_silent index (by simp), repliesOn_silent index (by simp)]
  | serve x recvData rest oldest =>
      simp only [Event.page, oldest, List.head?_cons, Option.map_some, Option.some.injEq] at here
      have member : recvData ∈ s.inbox x := by
        rw [oldest]
        exact List.mem_cons_self
      have structs := mirrors.structs x
      rw [oldest, structsOn_cons_same rest here] at structs
      obtain ⟨right, partRest, alike, others, partOldest⟩ :=
        List.forall₂_cons_left_iff.mp structs
      have same := mirrors.answer alike (ordered.names x recvData member) (ordered.terminated x)
      refine ⟨(part.serve setup x right partRest).1, (part.serve setup x right partRest).2,
        step_serve partOldest, ?_, ?_⟩
      · exact mirrors.serve ordered oldest inRange alike others same
      · rw [System.serve_outputs, System.serve_outputs, same, alike.leftPage, alike.rightPage]

end Moves

/-! ### Isolation -/

/-- The restricted run exists, reaches the same entries for the page and answers its
misses alike. -/
def Isolated (setup : Setup) (page : Int) (start : System) (events : List Event)
    (outputs : List Output) (final : System) : Prop :=
  ∃ partOutputs partFinal,
    Interleaved setup start (onlyPage setup page start events) partOutputs partFinal ∧
      (∀ x, (partFinal.machine x).listMSI page = (final.machine x).listMSI page) ∧
      repliesOn page partOutputs = repliesOn page outputs

/-- In a run of single commands in which no receipt disturbs the signals of another page,
every page is isolated from the traffic on the others. -/
theorem page_isolation {setup : Setup} {start final : System} {events : List Event}
    {outputs : List Output} (initial : Initial setup start)
    (run : Run (step setup) (fun s event => event.Single setup ∧ Undisturbed setup s event)
      start events outputs final)
    (page : Int) (inRange : setup.InRange page) :
    Isolated setup page start events outputs final := by
  have followed : Interleaved setup start events outputs final ∧ Ordered setup final ∧
      ∃ partOutputs part,
        Interleaved setup start (onlyPage setup page start events) partOutputs part ∧
        Mirrors setup page final part ∧ repliesOn page partOutputs = repliesOn page outputs := by
    refine run.history_invariant
      (fun past shownBefore s => Interleaved setup start past shownBefore s ∧ Ordered setup s ∧
        ∃ partOutputs part,
          Interleaved setup start (onlyPage setup page start past) partOutputs part ∧
          Mirrors setup page s part ∧ repliesOn page partOutputs = repliesOn page shownBefore)
      ⟨.stop, initial.ordered, [], start, .stop, initial.mirrors inRange, rfl⟩ ?_
    rintro past shownBefore before event after shown
      ⟨whole, ordered, partOutputs, part, partRun, mirrors, same⟩ ⟨single, undisturbed⟩ accepted
    have move := Move.of_step single accepted
    have next := move.ordered single ordered undisturbed
    refine ⟨whole.extend single accepted, next, ?_⟩
    unfold onlyPage at partRun ⊢
    rw [whole.restrict_append _ accepted]
    by_cases here : event.page before = some page
    · obtain ⟨partAfter, partShown, partAccepted, mirrored, replied⟩ :=
        move.mirrors_same ordered next inRange here mirrors
      refine ⟨partOutputs ++ partShown, partAfter, ?_, mirrored, ?_⟩
      · rw [if_pos (decide_eq_true here)]
        exact partRun.extend single partAccepted
      · rw [repliesOn_append, repliesOn_append, same, replied]
    · obtain ⟨mirrored, silent⟩ := move.mirrors_other ordered undisturbed inRange here mirrors
      refine ⟨partOutputs, part, ?_, mirrored, ?_⟩
      · rw [if_neg (by simpa using here), List.append_nil]
        exact partRun
      · rw [repliesOn_append, silent, List.append_nil, same]
  obtain ⟨_whole, _ordered, partOutputs, part, partRun, mirrors, same⟩ := followed
  exact ⟨partOutputs, part, partRun, fun x => (mirrors.twins x).entry, same⟩

def twoWriters : List Event :=
  [.write .one 0 [97], .serve .two, .write .two 1 [98], .read .two 0, .serve .one,
    .serve .one, .receive .two]

def UndisturbedTwo (s : System) : Event → Prop
  | .write _ _ message => (strBytes message).length < twoPages.pageSize
  | .serve x =>
      ∀ recvData ∈ (s.inbox x).head?, ∀ page ∈ [(0 : Int), 1], page ≠ recvData.pageNum →
        ((s.machine x).listMSI page ≠ .shared →
          (recvData.busRequest page ↔ (s.machine x).tempData.busRequest page)) ∧
        ((s.machine x).listMSI page = .modified → recvData.readSignal page = 0)
  | _ => True

instance (s : System) (event : Event) : Decidable (UndisturbedTwo s event) :=
  match event with
  | .write _ _ _ => inferInstanceAs (Decidable (_ < _))
  | .serve _ => inferInstanceAs (Decidable (∀ _ ∈ _, ∀ _ ∈ _, _))
  | .read _ _ | .select _ _ | .enter _ _ | .iterate _ | .receive _ =>
      inferInstanceAs (Decidable True)

theorem twoPages_inRange {page : Int} (inRange : twoPages.InRange page) :
    page ∈ [(0 : Int), 1] := by
  obtain ⟨lower, upper, _entries⟩ := inRange
  change page < 2 at upper
  have known : page = 0 ∨ page = 1 := by omega
  simpa using known

theorem UndisturbedTwo.undisturbed {s : System} {event : Event}
    (checked : UndisturbedTwo s event) : Undisturbed twoPages s event := by
  cases event with
  | write x page message => exact checked
  | serve x =>
      intro recvData oldest page inRange other
      exact checked recvData oldest page (twoPages_inRange inRange) other
  | _ => trivial

private theorem twoWriters_run :
    (play (fun s event => event.Single twoPages ∧ UndisturbedTwo s event) twoWriters).isSome =
      true := by
  decide

theorem page_isolation_twoWriters :
    Isolated twoPages 0 (freshSystem twoPages) twoWriters
      ((play (fun s event => event.Single twoPages ∧ UndisturbedTwo s event) twoWriters).get
        twoWriters_run).2 (reached _ twoWriters twoWriters_run) :=
  page_isolation (freshSystem_initial twoPages)
    ((play_run _ twoWriters twoWriters_run).weaken
      (fun _ _ checked => ⟨checked.1, checked.2.undisturbed⟩)) 0 (by decide)

private theorem interference_runs :
    (play (fun _ event => event.Single twoPages) staleReadEvents).isSome = true := by decide

/-- The write to page 1 carries machine 1's read signal for page 0 to machine 2.  Without
it the last write leaves page 0 in I on machine 1. -/
theorem page_isolation_fails :
    ¬ ∀ (setup : Setup) (start final : System) (events : List Event) (outputs : List Output),
      Initial setup start → Interleaved setup start events outputs final →
      ∀ page, setup.InRange page → Isolated setup page start events outputs final := by
  intro general
  obtain ⟨_outputs, part, partRun, same, _replies⟩ := general twoPages _ _ _ _
    (freshSystem_initial twoPages) (play_run _ staleReadEvents interference_runs) 0 (by decide)
  have executed := congrArg
    (Option.map fun result => (result.1.machine .one).listMSI 0) partRun.executes
  rw [Option.map_some, same .one] at executed
  exact absurd executed (by decide)

end LKP.Dsm
