/-
  The refinement theorems that tie the handlers of both files to the object.

  * `Rx.step_refines`, `Tx.step_refines`: an event of the node is one step of its object.
  * `Rx.step_change`, `Tx.step_change`: the step by its cases.
  * `PacketOutcome`, `ProfileOutcome`: the ways `handle_packet` and `handle_profile` end.
-/
import Adler.Deluge.Object
import Adler.Deluge.Tx

namespace Adler.Deluge

open Lib (Mem)
open Node

/-! ## Blocks of the handlers -/

theorem pageCount_le (s : Node) : s.pageCount ≤ 255 := by
  unfold Node.pageCount
  simp only [sPage]
  omega

theorem mark_finished (p : Page) (v : Nat) :
    ({ p with version := v, flags := pageComplete } : Page).mark = ⟨p.packetSet, true, v⟩ := by
  simp [Page.mark, Page.complete]

theorem marks_update (pages : Nat → Page) (i : Nat) (p : Page) :
    (fun j => (Function.update pages i p j).mark) =
      Function.update (fun j => (pages j).mark) i p.mark := by
  funext j
  by_cases h : j = i
  · subst h; simp
  · simp [h]

section

variable (s : Node)

@[simp] theorem effect_object (e : Effect) : (s.effect e).object = s.object := rfl

@[simp] theorem touch_object (i : Nat) : (s.touch i).object = s.object := rfl

@[simp] theorem touchBelow_object (n : Nat) : (s.touchBelow n).object = s.object := rfl

@[simp] theorem scanPages_object : (scanPages s).object = s.object := rfl

@[simp] theorem broadcast_object (bs : List UInt8) : (s.broadcast bs).object = s.object := rfl

@[simp] theorem unicast_object (a : RimeAddr) (bs : List UInt8) :
    (s.unicast a bs).object = s.object := rfl

@[simp] theorem armRx_object : s.armRx.object = s.object := rfl

@[simp] theorem armExpiredRx_object : s.armExpiredRx.object = s.object := rfl

@[simp] theorem armTx_object : s.armTx.object = s.object := rfl

@[simp] theorem copySender_object (a : RimeAddr) : (s.copySender a).object = s.object := rfl

@[simp] theorem noteVersion_object (v : Nat) : (s.noteVersion v).object = s.object := rfl

@[simp] theorem noteSummary_object (m : DelugeMsgSummary) (h : Nat) :
    (noteSummary m h s).object = s.object := rfl

@[simp] theorem transition_object (st : DelugeState) : (transition st s).object = s.object := by
  unfold transition
  split
  · rfl
  · split <;> rfl

/-- Replacing a record by one with the same mark does not show. -/
theorem setPage_object {i : Nat} {p : Page} (h : p.mark = (s.pages i).mark) :
    (s.setPage i p).object = s.object := by
  simp only [Node.object, Node.setPage, marks_update, h, Function.update_eq_self]
  rfl

@[simp] theorem stampRequest_object (i : Nat) (now : UInt32) :
    (stampRequest i now s).object = s.object := setPage_object s rfl

@[simp] theorem advertiseSummary_object : (advertiseSummary s).object = s.object := by
  unfold advertiseSummary
  split <;> rfl

@[simp] theorem sendProfile_object : (sendProfile s).object = s.object := by
  unfold sendProfile
  split <;> rfl

@[simp] theorem limitRequests_object (lambda : Nat) : (limitRequests lambda s).object = s.object := by
  unfold limitRequests
  dsimp only
  split
  · exact transition_object _ _
  · rfl

end

/-! ## Handlers the two files share -/

section

variable (env : Env) (s : Node)

/-- What a loop body leaves alone, the loop leaves alone. -/
theorem foldl_frame {α β : Type*} (view : Node → β) (f : Node → α → Node)
    (h : ∀ s a, view (f s a) = view s) (l : List α) (s : Node) :
    view (l.foldl f s) = view s := by
  induction l generalizing s with
  | nil => rfl
  | cons a l ih => rw [List.foldl_cons, ih, h]

@[simp] theorem sendPackets_object (pagenum : Nat) (buf : Mem) :
    (sendPackets pagenum buf s).object = s.object := by
  unfold sendPackets
  exact foldl_frame Node.object _ (fun s k => by split <;> rfl) _ s

theorem sendPage_object (pagenum : Nat) :
    (sendPage env pagenum s).object =
      { s.object with txSet := 0, file := (readFile env pagenum env.stack s.file).2.2 } := by
  change { (sendPackets pagenum _ _).object with txSet := 0 } = _
  rw [sendPackets_object]
  rfl

theorem txCallback_object :
    (txCallback env s).object = if s.object.Queued then s.object.serve env else s.object := by
  unfold txCallback
  by_cases h : 0 ≤ s.currentTxPage ∧ s.txSet ≠ 0
  · have ho : s.object.Queued := h
    rw [if_pos h, if_pos ho]
    have htx : ¬ (sendPage env s.currentTxPage.toNat s).txSet ≠ 0 := by
      simp [sendPage]
    dsimp only
    rw [if_neg htx, transition_object]
    change { (sendPage env s.currentTxPage.toNat s).object with currentTxPage := -1 } = _
    rw [sendPage_object]
    rfl
  · have ho : ¬ s.object.Queued := h
    rw [if_neg h, if_neg ho]

theorem handleRequest_object (m : DelugeMsgRequest) :
    (handleRequest env m s).object =
      if s.object.Answers m then s.object.queue m else s.object := by
  unfold handleRequest
  by_cases hc : s.pageCount ≤ m.pagenum
  · have h : ¬ s.object.Answers m := fun h => absurd h.1 (Nat.not_lt.mpr hc)
    rw [if_pos hc, if_neg h]
  · rw [if_neg hc]
    dsimp only
    by_cases h : m.version = (scanPages (noteVersion m.version s)).version ∧
        m.pagenum ≤ highestAvailablePage (noteVersion m.version s)
    · have ha : s.object.Answers m := ⟨Nat.lt_of_not_le hc, h⟩
      have hs : (stampRequest m.pagenum env.now
          ((scanPages (noteVersion m.version s)).touch m.pagenum)).object = s.object := by
        simp
      rw [if_pos ha, if_pos h, armTx_object, transition_object]
      change ({ (stampRequest m.pagenum env.now
        ((scanPages (noteVersion m.version s)).touch m.pagenum)).object with
          txSet := _, currentTxPage := _ } : Object) = _
      rw [hs]
      rfl
    · have ha : ¬ s.object.Answers m := fun ha => h ha.2
      rw [if_neg ha, if_neg h]
      simp

theorem copyPayload_object (p : DelugeMsgPacket) :
    (copyPayload p s).object = s.object.spoil p := rfl

theorem markPacket_object (now : UInt32) (p : DelugeMsgPacket) :
    (markPacket now p s).object = { s.object with
      marks := Function.update s.object.marks p.pagenum { s.object.marks p.pagenum with
        packetSet := (s.object.marks p.pagenum).packetSet ||| 1 <<< p.packetnum } } := by
  simp only [markPacket, Node.object, Node.setPage, marks_update]
  rfl

theorem finishPage_object (p : DelugeMsgPacket) :
    (finishPage p s).object = { s.object with
      marks := Function.update s.object.marks p.pagenum
        ⟨(s.object.marks p.pagenum).packetSet, true, p.version⟩
      currentRxPage := (s.object.currentRxPage + 1) % 256 } := by
  simp only [finishPage, Node.object, marks_update, mark_finished]
  rfl

theorem writePage_object (pagenum : Nat) (data : List UInt8) :
    (writePage env pagenum data s).2.object =
      { s.object with file := (writeFile env pagenum data s.object.file).2 } := rfl

theorem nextPage_object {announce : Node → Node} (ha : ∀ t, (announce t).object = t.object)
    (p : DelugeMsgPacket) :
    (nextPage announce p s).object =
      if p.pagenum = (s.object.pageCount + 65535) % 65536 then
        { s.object with version := s.object.updateVersion, updateState := true }
      else s.object := by
  unfold nextPage
  by_cases h : p.pagenum = (s.pageCount + 65535) % 65536
  · have ho : p.pagenum = (s.object.pageCount + 65535) % 65536 := h
    rw [if_pos h, if_pos ho]
    change { (announce { s with version := s.updateVersion }).object with updateState := true } = _
    rw [ha]
    rfl
  · have ho : ¬ p.pagenum = (s.object.pageCount + 65535) % 65536 := h
    rw [if_neg h, if_neg ho]
    split <;> rfl

/-- A packet of the current page, before its version is looked at. -/
def heard (p : DelugeMsgPacket) (s : Node) : Node := (noteVersion p.version s).touch p.pagenum

/-- A packet that is taken in. -/
def taken (env : Env) (p : DelugeMsgPacket) (s : Node) : Node :=
  markPacket env.now p (copyPayload p (heard p s))

/-- The packet that completes the current page: the page is written and marked. -/
def stored (env : Env) (p : DelugeMsgPacket) (s : Node) : Node :=
  finishPage p (writePage env p.pagenum (Mem.read (s.object.bufferWith p) 0 sPage)
    (taken env p s)).2

/-- The ways `handle_packet` ends. -/
inductive PacketOutcome (announce : Node → Node) (env : Env) (p : DelugeMsgPacket) (s : Node) :
    Node → Prop
  | otherPage : p.pagenum ≠ s.currentRxPage → PacketOutcome announce env p s s
  | unwanted : p.pagenum = s.currentRxPage → ¬ s.object.Wants p →
      PacketOutcome announce env p s (heard p s)
  | corrupt : s.object.Wants p → p.packetnum < nPkt → ¬ p.CrcOk →
      PacketOutcome announce env p s (copyPayload p (heard p s))
  | taken : s.object.Wants p → p.packetnum < nPkt → p.CrcOk → s.object.setWith p ≠ allPackets →
      PacketOutcome announce env p s (taken env p s)
  | completes : s.object.Completes p → p.packetnum < nPkt →
      PacketOutcome announce env p s (transition .maintain (nextPage announce p (stored env p s)))

theorem wants_iff (p : DelugeMsgPacket) (h : p.pagenum = s.currentRxPage) :
    s.object.Wants p ↔
      p.version = (s.pages p.pagenum).version ∧ (s.pages p.pagenum).complete = false := by
  rw [h]
  exact ⟨fun hw => hw.2, fun hw => ⟨h, hw⟩⟩

theorem taken_packetSet (p : DelugeMsgPacket) (h : p.pagenum = s.currentRxPage) :
    ((taken env p s).pages p.pagenum).packetSet = s.object.setWith p := by
  simp only [taken, markPacket, Node.setPage, Function.update_self]
  rw [h]
  rfl

/-- `handle_packet` ends in one of these ways, unless the payload leaves the buffer. -/
theorem handlePacketWith_outcome {announce : Node → Node} {p : DelugeMsgPacket} {s' : Node}
    (h : handlePacketWith announce env p s = some s') : PacketOutcome announce env p s s' := by
  unfold handlePacketWith at h
  by_cases hcur : p.pagenum = s.currentRxPage
  swap
  · rw [if_pos hcur, Option.some.injEq] at h
    exact h ▸ .otherPage hcur
  rw [if_neg (not_not_intro hcur)] at h
  change (if p.version = (s.pages p.pagenum).version ∧ (s.pages p.pagenum).complete = false then
    if nPkt ≤ p.packetnum then none
    else if p.CrcOk then
      if ((Deluge.taken env p s).pages p.pagenum).packetSet = allPackets then
        some (transition .maintain (nextPage announce p (stored env p s)))
      else some (Deluge.taken env p s)
    else some (copyPayload p (heard p s))
  else some (heard p s)) = some s' at h
  rw [taken_packetSet env s p hcur] at h
  have hwants := wants_iff s p hcur
  split_ifs at h with hw hn hcrc hset <;> cases h
  · exact .completes ⟨hwants.mpr hw, hcrc, hset⟩ (Nat.lt_of_not_le hn)
  · exact .taken (hwants.mpr hw) (Nat.lt_of_not_le hn) hcrc hset
  · exact .corrupt (hwants.mpr hw) (Nat.lt_of_not_le hn) hcrc
  · exact .unwanted hcur fun h => hw (hwants.mp h)

/-- It does not end only when the payload leaves the buffer. -/
theorem handlePacketWith_isSome {announce : Node → Node} {p : DelugeMsgPacket}
    (h : s.object.Wants p → p.packetnum < nPkt) :
    ∃ s', handlePacketWith announce env p s = some s' := by
  unfold handlePacketWith
  by_cases hcur : p.pagenum = s.currentRxPage
  swap
  · exact ⟨s, if_pos hcur⟩
  rw [if_neg (not_not_intro hcur)]
  dsimp only
  split_ifs with hv hn
  · have hw : s.object.Wants p := (wants_iff s p hcur).mpr hv
    exact absurd (h hw) (Nat.not_lt.mpr hn)
  all_goals exact ⟨_, rfl⟩

theorem heard_object (p : DelugeMsgPacket) : (heard p s).object = s.object := rfl

theorem taken_object (p : DelugeMsgPacket) (h : p.pagenum = s.currentRxPage) :
    (taken env p s).object = s.object.collect p := by
  rw [taken, markPacket_object, h]
  rfl

theorem stored_object {p : DelugeMsgPacket} (h : p.pagenum = s.currentRxPage) :
    (stored env p s).object = s.object.store env p := by
  rw [stored, finishPage_object, writePage_object, taken_object env s p h, h]
  simp only [Object.store, Object.collect, show s.object.currentRxPage = s.currentRxPage from rfl,
    Function.update_self, Function.update_idem]

/-- To the object, `handle_packet` does what `receive` says. -/
theorem PacketOutcome.object {announce : Node → Node} {p : DelugeMsgPacket} {s s' : Node}
    (ha : ∀ t, (announce t).object = t.object) (h : PacketOutcome announce env p s s') :
    s'.object = s.object.receive env p := by
  unfold Object.receive
  cases h with
  | otherPage hp => rw [if_neg fun hw => hp hw.1]
  | unwanted hp hw => rw [if_neg hw, heard_object]
  | corrupt hw hn hcrc => rw [if_pos hw, if_neg hcrc, copyPayload_object, heard_object]
  | taken hw hn hcrc hset =>
    rw [if_pos hw, if_pos hcrc, if_neg hset, taken_object env s p hw.1]
  | completes hc hn =>
    obtain ⟨hw, hcrc, hset⟩ := hc
    rw [if_pos hw, if_pos hcrc, if_pos hset, transition_object, nextPage_object _ ha,
      stored_object env s hw.1, hw.1]
    rfl

/-- `tx_set` and `size` at the start of `handle_profile`. -/
def resized (m : DelugeMsgProfile) (s : Node) : Node :=
  { s with txSet := 0, size := m.npages * sPage % 65536 }

/-- The page table after both loops of `handle_profile`. -/
def retabled (env : Env) (m : DelugeMsgProfile) (block : Nat → Page) (s : Node) : Node :=
  let npages := if m.npages < s.pageCount then m.npages else s.pageCount
  initPages env npages m.npages
    (reversionPages m.versionVector npages (newTable s.pageCount block (resized m s)))

/-- The ways `handle_profile` ends. -/
inductive ProfileOutcome (env : Env) (m : DelugeMsgProfile) (s : Node) : Node → Prop
  | old : m.version ≤ s.updateVersion → ProfileOutcome env m s s
  | noMemory : s.updateVersion < m.version → env.heap = none →
      ProfileOutcome env m s (resized m s)
  | accepted (block : Nat → Page) : s.updateVersion < m.version → env.heap = some block →
      ProfileOutcome env m s
        (armRx (transition .rx (beginUpdate m.version (scanPages (retabled env m block s)))))

theorem handleProfile_outcome (m : DelugeMsgProfile) :
    ProfileOutcome env m s (handleProfile env m s) := by
  unfold handleProfile
  by_cases hv : m.version ≤ s.updateVersion
  · rw [if_pos hv]
    exact .old hv
  rw [if_neg hv]
  dsimp only
  cases hheap : env.heap with
  | none => exact .noMemory (Nat.lt_of_not_le hv) hheap
  | some block => exact .accepted block (Nat.lt_of_not_le hv) hheap

/-- A page record as `init_page` leaves it for a page the node does not have. -/
def blankPage (p : Page) : Page :=
  { p with flags := 0, lastRequest := 0, lastData := 0, version := 0, packetSet := 0 }

theorem foldl_initPage (l : List Nat) (s : Node) :
    l.foldl (fun s i => initPage env i false s) s =
      { s with pages := l.foldl (fun t i => Function.update t i (blankPage (t i))) s.pages } := by
  induction l generalizing s with
  | nil => rfl
  | cons i l ih =>
    rw [List.foldl_cons, ih]
    rfl

theorem initPages_eq (a b : Nat) :
    initPages env a b s =
      { s with pages := fun i => if a ≤ i ∧ i < b then blankPage (s.pages i) else s.pages i } := by
  have hloop := Lib.foldl_update (fun _ => blankPage) (List.range' a (b - a)) s.pages
    (List.nodup_range' 1 (by omega))
  have hmem : ∀ i, i ∈ List.range' a (b - a) ↔ a ≤ i ∧ i < b := by
    intro i
    rw [List.mem_range'_1]
    omega
  simp only [initPages, foldl_initPage, hloop, hmem]

theorem reversionPages_eq (versionVector : Nat → Nat) (n : Nat) :
    reversionPages versionVector n s = { s with
      pages := fun i => if i < n then reversionPage versionVector i (s.pages i) else s.pages i } := by
  have hloop := Lib.foldl_update (reversionPage versionVector) (List.range n) s.pages
    List.nodup_range
  simp only [reversionPages, hloop, List.mem_range]

theorem reversionPage_mark (versionVector : Nat → Nat) (i : Nat) (p : Page) :
    (reversionPage versionVector i p).mark =
      if versionVector i > p.mark.version then ⟨0, false, versionVector i⟩ else p.mark := by
  unfold reversionPage
  by_cases h : versionVector i > p.version
  · have hm : versionVector i > p.mark.version := h
    have hc := Page.complete_clearComplete { p with packetSet := 0 }
    rw [if_pos h, if_pos hm]
    simp only [Page.mark, Page.complete] at hc ⊢
    rw [hc]
    rfl
  · have hm : ¬ versionVector i > p.mark.version := h
    rw [if_neg h, if_neg hm]

theorem blankPage_mark (p : Page) : (blankPage p).mark = ⟨0, false, 0⟩ := by
  simp [blankPage, Page.mark, Page.complete]

theorem retabled_marks (m : DelugeMsgProfile) (block : Nat → Page) (i : Nat) :
    ((retabled env m block s).pages i).mark =
      s.object.announcedMark m (fun i => (block i).mark) i := by
  have hk : (if m.npages < s.pageCount then m.npages else s.pageCount) =
      min m.npages s.object.pageCount := by
    rw [show s.object.pageCount = s.pageCount from rfl]
    split <;> omega
  have hobj : s.object.pageCount = s.pageCount := rfl
  simp only [retabled, initPages_eq, reversionPages_eq, newTable, resized, hk,
    Object.announcedMark]
  by_cases h1 : i < min m.npages s.object.pageCount
  · have h2 : ¬ (min m.npages s.object.pageCount ≤ i ∧ i < m.npages) := by omega
    have h3 : i < s.pageCount := by omega
    rw [if_neg h2, if_pos h1, if_pos h1, if_pos h3, reversionPage_mark]
    rfl
  · rw [if_neg h1, if_neg h1]
    by_cases h2 : i < m.npages
    · have h3 : min m.npages s.object.pageCount ≤ i ∧ i < m.npages := by omega
      rw [if_pos h3, if_pos h2, blankPage_mark]
    · have h3 : ¬ (min m.npages s.object.pageCount ≤ i ∧ i < m.npages) := by omega
      rw [if_neg h3, if_neg h2]
      by_cases h4 : i < s.pageCount
      · have h5 : i < s.object.pageCount := h4
        rw [if_pos h4, if_pos h5]
        rfl
      · have h5 : ¬ i < s.object.pageCount := h4
        rw [if_neg h4, if_neg h5]

theorem resized_pageCount {m : DelugeMsgProfile} (h : m.npages < 256) :
    (resized m s).pageCount = m.npages := by
  simp only [resized, Node.pageCount, sPage]
  omega

theorem retabled_object {m : DelugeMsgProfile} (h : m.npages < 256) (block : Nat → Page) :
    (retabled env m block s).object = { s.object with
      pageCount := m.npages
      entries := m.npages
      marks := s.object.announcedMark m fun i => (block i).mark
      txSet := 0 } := by
  have hmarks := funext (retabled_marks env s m block)
  have hcount := resized_pageCount s h
  simp only [Node.object, hmarks]
  simp only [retabled, initPages_eq, reversionPages_eq, newTable, Node.pageCount] at hcount ⊢
  simp only [hcount]
  rfl

/-- To the object, `handle_profile` does what `update` says. -/
theorem handleProfile_object {m : DelugeMsgProfile} (hm : m.npages < 256) :
    (handleProfile env m s).object = s.object.update env m := by
  have h := handleProfile_outcome env s m
  have hupdate : s.object.updateVersion = s.updateVersion := rfl
  unfold Object.update
  rw [hupdate]
  generalize handleProfile env m s = s' at h
  cases h with
  | old hv => rw [if_pos hv]
  | noMemory hv hheap =>
    have hcount := resized_pageCount s hm
    rw [if_neg (Nat.not_le.mpr hv), hheap]
    simp only [Node.object, hcount]
    rfl
  | accepted block hv hheap =>
    rw [if_neg (Nat.not_le.mpr hv), hheap, armRx_object, transition_object]
    change { (retabled env m block s).object with
      currentRxPage := (retabled env m block s).object.available % 256
      updateVersion := m.version } = _
    rw [retabled_object env s hm]
    rfl

end

/-! ## Events -/

/-- The `tx_timer` event, the same in both files. -/
theorem txTimer_object (env : Env) (s : Node) :
    (if s.txTimer then txCallback env { s with txTimer := false } else s).object =
      s.object.next env .txTimer s.txTimer := by
  have h := txCallback_object env { s with txTimer := false }
  simp only [Object.next]
  cases s.txTimer with
  | false => simp
  | true =>
    simp only [if_true, true_and, h]
    rfl

/-- The `summary_timer` event. -/
theorem summaryTimer_object (s : Node) :
    (if s.summaryTimer then advertiseSummary { s with summaryTimer := false } else s).object =
      s.object := by
  split
  · exact advertiseSummary_object _
  · rfl

/-- The `profile_timer` event. -/
theorem profileTimer_object (s : Node) :
    (if s.profileTimer then sendProfile { s with profileTimer := false } else s).object =
      s.object := by
  split
  · exact sendProfile_object _
  · rfl

section

variable {hs : Env → DelugeMsgSummary → RimeAddr → Node → Node} {announce : Node → Node}
  {env : Env} {sender : RimeAddr} {b : Packetbuf} {s s' : Node}

theorem commandDispatcherWith_object (hsum : ∀ m t, (hs env m sender t).object = t.object)
    (ha : ∀ t, (announce t).object = t.object)
    (h : commandDispatcherWith hs (handlePacketWith announce) env sender b s = some s')
    (pending : Bool) : s'.object = s.object.next env (.receive sender b) pending := by
  rw [commandDispatcherWith_eq] at h
  simp only [Object.next]
  cases hm : b.message with
  | none =>
    simp only [hm, Option.some.injEq] at h
    rw [h]
  | some m =>
    cases m with
    | summary m =>
      simp only [hm, Option.some.injEq] at h
      rw [← h, hsum]
      rfl
    | request m =>
      simp only [hm, Option.some.injEq] at h
      rw [← h, handleRequest_object]
      rfl
    | packet p =>
      simp only [hm] at h
      exact (handlePacketWith_outcome env s h).object env ha
    | profile m =>
      simp only [hm, Option.some.injEq] at h
      rw [← h, handleProfile_object env s (Event.npages_lt (e := .receive sender b) hm)]
      rfl

theorem commandDispatcherWith_isSome (h : s.object.InBuffer (.receive sender b)) :
    ∃ s', commandDispatcherWith hs (handlePacketWith announce) env sender b s = some s' := by
  rw [commandDispatcherWith_eq]
  cases hm : b.message with
  | none => exact ⟨_, rfl⟩
  | some m =>
    cases m with
    | packet p => exact handlePacketWith_isSome env s (h p hm)
    | summary m => exact ⟨_, rfl⟩
    | request m => exact ⟨_, rfl⟩
    | profile m => exact ⟨_, rfl⟩

end

namespace Rx

@[simp] theorem askProfile_object (m : DelugeMsgSummary) (sender : RimeAddr) (s : Node) :
    (askProfile m sender s).object = s.object := rfl

theorem offerRequest_object (env : Env) (m : DelugeMsgSummary) (sender : RimeAddr) (s : Node) :
    (offerRequest env m sender s).object = s.object := by
  unfold offerRequest
  split
  · rfl
  · dsimp only
    split
    · rfl
    · simp

theorem handleSummary_object (env : Env) (m : DelugeMsgSummary) (sender : RimeAddr) (s : Node) :
    (handleSummary env m sender s).object = s.object := by
  unfold handleSummary
  dsimp only
  split_ifs <;>
    simp only [offerRequest_object, askProfile_object, noteSummary_object, scanPages_object]

/-- **Refinement of the receiver.** -/
theorem step_refines {env : Env} {e : Event} {s s' : Node} (h : step env e s = some s') :
    s'.object = s.object.next env e s.txTimer := by
  cases e with
  | receive sender b =>
    exact commandDispatcherWith_object (s := { s with effects := [] })
      (fun m t => handleSummary_object env m sender t) advertiseSummary_object h s.txTimer
  | rxExpires =>
    cases h
    rfl
  | rxTimer =>
    cases h
    dsimp only
    split
    · exact (limitRequests_object _ _).trans (stampRequest_object _ _ _)
    · rfl
  | txTimer =>
    cases h
    exact txTimer_object env { s with effects := [] }
  | summaryTimer =>
    cases h
    exact summaryTimer_object { s with effects := [] }
  | profileTimer =>
    cases h
    exact profileTimer_object { s with effects := [] }
  | round =>
    cases h
    rfl

theorem step_change {env : Env} {e : Event} {s s' : Node} (h : step env e s = some s') :
    Object.Change env e s.txTimer s.object s'.object :=
  step_refines h ▸ Object.next_change env e s.txTimer s.object

theorem step_isSome {env : Env} {e : Event} {s : Node} (h : s.object.InBuffer e) :
    ∃ s', step env e s = some s' := by
  cases e with
  | receive sender b => exact commandDispatcherWith_isSome (s := { s with effects := [] }) h
  | _ => exact ⟨_, rfl⟩

/-- A step that stays in the buffer is the function `step`. -/
theorem Step.eq_some {a : Env × Event} {s s' : Node} (h : Step a s s')
    (hin : s.object.InBuffer a.2) : step a.1 a.2 s = some s' := by
  obtain ⟨t, ht⟩ : ∃ t, step a.1 a.2 s = some t := step_isSome hin
  rw [ht, h t ht]

end Rx

namespace Tx

@[simp] theorem postReport_object (m : DelugeMsgSummary) (sender : RimeAddr) (h : Nat) (s : Node) :
    (postReport m sender h s).object = s.object := by
  unfold postReport
  split <;> rfl

theorem offerRequest_object (env : Env) (m : DelugeMsgSummary) (sender : RimeAddr) (s : Node) :
    (offerRequest env m sender s).object = s.object := by
  unfold offerRequest
  split
  · rfl
  · dsimp only
    split
    · rfl
    · simp

theorem handleSummary_object (env : Env) (m : DelugeMsgSummary) (sender : RimeAddr) (s : Node) :
    (handleSummary env m sender s).object = s.object := by
  unfold handleSummary
  dsimp only
  split_ifs <;>
    simp only [offerRequest_object, postReport_object, noteSummary_object, scanPages_object]

/-- **Refinement of the gateway.** -/
theorem step_refines {env : Env} {e : Event} {s s' : Node} (h : step env e s = some s') :
    s'.object = s.object.next env e s.txTimer := by
  cases e with
  | receive sender b =>
    exact commandDispatcherWith_object (s := { s with effects := [] })
      (fun m t => handleSummary_object env m sender t) (fun _ => rfl) h s.txTimer
  | rxExpires =>
    cases h
    rfl
  | rxTimer =>
    cases h
    dsimp only
    split
    · exact limitRequests_object _ _
    · rfl
  | txTimer =>
    cases h
    exact txTimer_object env { s with effects := [] }
  | summaryTimer =>
    cases h
    exact summaryTimer_object { s with effects := [] }
  | profileTimer =>
    cases h
    exact profileTimer_object { s with effects := [] }
  | round =>
    cases h
    rfl

theorem step_change {env : Env} {e : Event} {s s' : Node} (h : step env e s = some s') :
    Object.Change env e s.txTimer s.object s'.object :=
  step_refines h ▸ Object.next_change env e s.txTimer s.object

theorem step_isSome {env : Env} {e : Event} {s : Node} (h : s.object.InBuffer e) :
    ∃ s', step env e s = some s' := by
  cases e with
  | receive sender b => exact commandDispatcherWith_isSome (s := { s with effects := [] }) h
  | _ => exact ⟨_, rfl⟩

/-- A step that stays in the buffer is the function `step`. -/
theorem Step.eq_some {a : Env × Event} {s s' : Node} (h : Step a s s')
    (hin : s.object.InBuffer a.2) : step a.1 a.2 s = some s' := by
  obtain ⟨t, ht⟩ : ∃ t, step a.1 a.2 s = some t := step_isSome hin
  rw [ht, h t ht]

end Tx

end Adler.Deluge
