/-
  What an event does besides changing the object: the messages it sends, the page records it
  accesses, the pages it stores and the events it posts.

  `Emits` lists the effects of the handlers the two files share, `Rx.Emits` and `Tx.Emits` add
  what is particular to each. `Rx.step_emits`, `Tx.step_emits`: a step has no other effects.
-/
import Adler.Deluge.Refinement

namespace Adler.Deluge

open Lib (Mem)
open Node

/-- The accesses of `highest_available_page`. -/
def Object.Scanned (o : Object) (x : Effect) : Prop :=
  ∃ i, i < min (o.available + 1) o.pageCount ∧ x = .page i o.entries

/-- The buffer `send_page` sends page `pagenum` from. -/
def Node.sendBuffer (env : Env) (s : Node) : Mem :=
  (readFile env s.currentTxPage.toNat env.stack s.file).2.1

/-- The effects of the shared handlers. -/
inductive Emits (env : Env) (s : Node) (e : Event) : Effect → Prop
  /-- `highest_available_page`, before anything changes. -/
  | scan {x : Effect} : s.object.Scanned x → Emits env s e x
  /-- The record of the page a request is for, in `handle_request`. -/
  | answer {m : DelugeMsgRequest} : e.message = some (.request m) → s.object.Answers m →
      Emits env s e (.page m.pagenum s.entries)
  /-- The record of the current page, in `handle_packet`. -/
  | packet {p : DelugeMsgPacket} : e.message = some (.packet p) → p.pagenum = s.currentRxPage →
      Emits env s e (.page p.pagenum s.entries)
  /-- `write_page` in `handle_packet`. -/
  | store {p : DelugeMsgPacket} {n : Nat} : e.message = some (.packet p) → s.object.Completes p →
      Emits env s e (.store p.pagenum (Mem.read (s.object.bufferWith p) 0 sPage) n)
  /-- `highest_available_page` over the new table, in `handle_profile`. -/
  | profile {m : DelugeMsgProfile} {block : Nat → Page} {x : Effect} :
      e.message = some (.profile m) → s.updateVersion < m.version → env.heap = some block →
      (s.object.announce m fun i => (block i).mark).Scanned x → Emits env s e x
  /-- The record of the current page, in `send_request`. -/
  | requested : e = .rxTimer → s.rxTimer = true → Emits env s e (.page s.currentRxPage s.entries)
  /-- `send_request`. -/
  | request : e = .rxTimer → s.rxTimer = true →
      Emits env s e (.unicast s.summaryFrom (DelugeMsgRequest.bytes
        ⟨(s.pages s.currentRxPage).version, s.currentRxPage,
          255 - (s.pages s.currentRxPage).packetSet % 256, s.objectId⟩))
  /-- The record of the queued page, in `send_page`. -/
  | served : e = .txTimer → s.txTimer = true → 0 ≤ s.currentTxPage → s.txSet ≠ 0 →
      Emits env s e (.page s.currentTxPage.toNat s.entries)
  /-- A packet of `send_page`. -/
  | serve {k : Nat} : e = .txTimer → s.txTimer = true → 0 ≤ s.currentTxPage →
      k < nPkt → s.txSet.testBit k = true →
      Emits env s e (.broadcast
        (packetOf s s.currentTxPage.toNat (s.sendBuffer env) k).bytes)
  /-- `advertise_summary` as a callback. -/
  | summary : e = .summaryTimer → s.summaryTimer = true →
      Emits env s e (.broadcast
        (DelugeMsgSummary.bytes ⟨s.updateVersion, s.object.available, s.objectId⟩))
  /-- `send_profile`. -/
  | profileSent : e = .profileTimer → s.profileTimer = true →
      Emits env s e (.broadcast ((profileOf s).bytes.take packetbufSize))

/-! ## The blocks -/

section

variable (s : Node)

theorem touchBelow_effects (n : Nat) {x : Effect} (hx : x ∈ (s.touchBelow n).effects) :
    x ∈ s.effects ∨ ∃ i, i < n ∧ x = .page i s.entries := by
  simp only [touchBelow, List.mem_append, List.mem_reverse, List.mem_map, List.mem_range] at hx
  rcases hx with ⟨i, hi, rfl⟩ | hx
  · exact .inr ⟨i, hi, rfl⟩
  · exact .inl hx

theorem scanPages_effects {x : Effect} (hx : x ∈ (scanPages s).effects) :
    x ∈ s.effects ∨ s.object.Scanned x := touchBelow_effects s _ hx

@[simp] theorem transition_effects (st : DelugeState) :
    (transition st s).effects = s.effects := by
  unfold transition
  split
  · rfl
  · split <;> rfl

@[simp] theorem limitRequests_effects (lambda : Nat) :
    (limitRequests lambda s).effects = s.effects := by
  unfold limitRequests
  dsimp only
  split
  · exact transition_effects _ _
  · rfl

theorem packetOf_payload (pagenum : Nat) (buf : Mem) (k : Nat) :
    (packetOf s pagenum buf k).payload.length = sPkt := by
  simp [packetOf]

theorem packetOf_take_bytes (pagenum : Nat) (buf : Mem) (k : Nat) :
    (packetOf s pagenum buf k).bytes.take packetbufSize = (packetOf s pagenum buf k).bytes := by
  apply List.take_of_length_le
  rw [DelugeMsgPacket.length_bytes _ (packetOf_payload s pagenum buf k)]
  simp

theorem advertiseSummary_effects {x : Effect} (hx : x ∈ (advertiseSummary s).effects) :
    x ∈ s.effects ∨ s.object.Scanned x ∨
      x = .broadcast (DelugeMsgSummary.bytes ⟨s.updateVersion, s.object.available, s.objectId⟩) := by
  unfold advertiseSummary at hx
  split at hx
  · exact .inl hx
  · rcases List.mem_cons.mp hx with rfl | hx
    · exact .inr (.inr rfl)
    · rcases scanPages_effects s hx with hx | hx
      · exact .inl hx
      · exact .inr (.inl hx)

/-- The packets of `send_page` are those asked for, in order, made of what is in the buffer. -/
theorem sendPackets_eq (pagenum : Nat) (buf : Mem) :
    (sendPackets pagenum buf s).effects =
      (((List.range nPkt).filter fun k => s.txSet.testBit k).map fun k =>
        Effect.broadcast (packetOf s pagenum buf k).bytes).reverse ++ s.effects := by
  -- over any list of packet numbers; broadcasting does not change what the later packets are
  have h : ∀ (l : List Nat) (t : Node), t.txSet = s.txSet →
      (∀ k, packetOf t pagenum buf k = packetOf s pagenum buf k) →
      (l.foldl (fun t k => if t.txSet.testBit k then
        t.broadcast (packetOf t pagenum buf k).bytes else t) t).effects =
      ((l.filter fun k => s.txSet.testBit k).map fun k =>
        Effect.broadcast (packetOf s pagenum buf k).bytes).reverse ++ t.effects := by
    intro l
    induction l with
    | nil => exact fun t _ _ => rfl
    | cons k l ih =>
      intro t ht hp
      rw [List.foldl_cons, List.filter_cons, ht]
      by_cases hk : s.txSet.testBit k = true
      · rw [if_pos hk, if_pos hk, ih (t.broadcast (packetOf t pagenum buf k).bytes) ht hp, hp]
        simp only [Node.broadcast, effect, packetOf_take_bytes, List.map_cons, List.reverse_cons,
          List.append_assoc, List.singleton_append]
      · rw [if_neg hk, if_neg hk, ih t ht hp]
  exact h _ s rfl fun _ => rfl

theorem sendPackets_effects (pagenum : Nat) (buf : Mem) {x : Effect}
    (hx : x ∈ (sendPackets pagenum buf s).effects) :
    x ∈ s.effects ∨ ∃ k, k < nPkt ∧ s.txSet.testBit k = true ∧
      x = .broadcast (packetOf s pagenum buf k).bytes := by
  rw [sendPackets_eq] at hx
  rcases List.mem_append.mp hx with hx | hx
  · obtain ⟨k, hk, rfl⟩ := List.mem_map.mp (List.mem_reverse.mp hx)
    obtain ⟨hlt, hbit⟩ := List.mem_filter.mp hk
    exact .inr ⟨k, List.mem_range.mp hlt, hbit, rfl⟩
  · exact .inl hx

end

/-! ## The handlers -/

section

variable {env : Env} {s : Node} {e : Event} {x : Effect}

/-- A step starts with no effects; nothing else about the state is different then. -/
theorem Emits.of_cleared (h : Emits env { s with effects := [] } e x) : Emits env s e x := by
  cases h with
  | scan h => exact .scan h
  | answer hm h => exact .answer hm h
  | packet hm h => exact .packet hm h
  | store hm h => exact .store hm h
  | profile hm hv hh h => exact .profile hm hv hh h
  | requested he h => exact .requested he h
  | request he h => exact .request he h
  | served he h h0 htx => exact .served he h h0 htx
  | serve he h h0 hk htx => exact .serve he h h0 hk htx
  | summary he h => exact .summary he h
  | profileSent he h => exact .profileSent he h

theorem handleRequest_effects {m : DelugeMsgRequest} (hm : e.message = some (.request m))
    (hx : x ∈ (handleRequest env m s).effects) : x ∈ s.effects ∨ Emits env s e x := by
  unfold handleRequest at hx
  by_cases hc : s.pageCount ≤ m.pagenum
  · rw [if_pos hc] at hx
    exact .inl hx
  rw [if_neg hc] at hx
  dsimp only at hx
  have hscan : x ∈ (scanPages (noteVersion m.version s)).effects →
      x ∈ s.effects ∨ Emits env s e x := fun hx =>
    (scanPages_effects (noteVersion m.version s) hx).imp_right .scan
  split at hx
  · rename_i h
    simp only [armTx, queuePackets, stampRequest, setPage, transition_effects] at hx
    rcases List.mem_cons.mp hx with rfl | hx
    · exact .inr (.answer hm ⟨Nat.lt_of_not_le hc, h⟩)
    · exact hscan hx
  · exact hscan hx

theorem stored_effects (p : DelugeMsgPacket) :
    (stored env p s).effects =
      .store p.pagenum (Mem.read (s.object.bufferWith p) 0 sPage)
        (writeFile env p.pagenum (Mem.read (s.object.bufferWith p) 0 sPage) s.file).1.toNat ::
          (heard p s).effects := rfl

theorem stored_objectId (p : DelugeMsgPacket) : (stored env p s).objectId = s.objectId := by
  simp only [stored, finishPage, writePage, taken, markPacket, copyPayload, heard, noteVersion,
    touch, effect, setPage]

theorem handlePacketWith_effects {announce : Node → Node} {p : DelugeMsgPacket} {s' : Node}
    {Q : Prop} (hm : e.message = some (.packet p))
    (ha : ∀ t : Node, t.object = s.object.store env p → t.objectId = s.objectId →
      s.object.Completes p → s.object.AtLast →
      x ∈ (announce { t with version := t.updateVersion }).effects → x ∈ t.effects ∨ Q)
    (h : handlePacketWith announce env p s = some s') (hx : x ∈ s'.effects) :
    x ∈ s.effects ∨ Emits env s e x ∨ Q := by
  have hheard : p.pagenum = s.currentRxPage → x ∈ (heard p s).effects →
      x ∈ s.effects ∨ Emits env s e x ∨ Q := by
    intro hp hx
    rcases List.mem_cons.mp hx with rfl | hx
    · exact .inr (.inl (.packet hm hp))
    · exact .inl hx
  cases handlePacketWith_outcome env s h with
  | otherPage hp => exact .inl hx
  | unwanted hp hw => exact hheard hp hx
  | corrupt hw hn hcrc => exact hheard hw.1 hx
  | taken hw hn hcrc hset => exact hheard hw.1 hx
  | completes hc hn =>
    rw [transition_effects] at hx
    have hstored : x ∈ (stored env p s).effects → x ∈ s.effects ∨ Emits env s e x ∨ Q :=
      fun hx => by
        rw [stored_effects] at hx
        rcases List.mem_cons.mp hx with rfl | hx
        · exact .inr (.inl (.store hm hc))
        · exact hheard hc.1.1 hx
    unfold nextPage at hx
    split_ifs at hx with hlast hmore
    · have hobj := stored_object env s hc.1.1
      have hcount : (stored env p s).pageCount = s.object.pageCount :=
        congrArg Object.pageCount hobj
      have hat : s.object.AtLast := by
        rw [Object.AtLast, ← hcount, ← hlast]
        exact hc.1.1.symm
      rcases ha (stored env p s) hobj (stored_objectId p) hc hat hx with hx | hq
      · exact hstored hx
      · exact .inr (.inr hq)
    · exact hstored hx
    · exact hstored hx

theorem handleProfile_effects {m : DelugeMsgProfile} (hm : e.message = some (.profile m))
    (hx : x ∈ (handleProfile env m s).effects) : x ∈ s.effects ∨ Emits env s e x := by
  have h := handleProfile_outcome env s m
  generalize handleProfile env m s = s' at h hx
  cases h with
  | old hv => exact .inl hx
  | noMemory hv hheap => exact .inl hx
  | accepted block hv hheap =>
    have hobj := retabled_object env s (Event.npages_lt hm) block
    simp only [armRx, transition_effects, beginUpdate] at hx
    rcases scanPages_effects _ hx with hx | hx
    · simp only [retabled, initPages_eq, reversionPages_eq] at hx
      exact .inl hx
    · rw [hobj] at hx
      exact .inr (.profile hm hv hheap hx)

theorem txCallback_effects (he : e = .txTimer) (ht : s.txTimer = true) {t : Node}
    (hs : t = { s with txTimer := false })
    (hx : x ∈ (txCallback env t).effects) : x ∈ s.effects ∨ Emits env s e x := by
  subst hs
  unfold txCallback at hx
  split at hx
  · rename_i h
    have hsent : x ∈ (sendPage env s.currentTxPage.toNat { s with txTimer := false }).effects := by
      dsimp only at hx
      split at hx
      · exact hx
      · simpa only [transition_effects] using hx
    rcases sendPackets_effects _ _ _ hsent with hx | ⟨k, hk, hbit, rfl⟩
    · rcases List.mem_cons.mp hx with rfl | hx
      · exact .inr (.served he ht h.1 h.2)
      · exact .inl hx
    · exact .inr (.serve he ht h.1 hk hbit)
  · exact .inl hx

theorem sendProfile_effects (he : e = .profileTimer) (ht : s.profileTimer = true) {t : Node}
    (hs : t = { s with profileTimer := false })
    (hx : x ∈ (sendProfile t).effects) : x ∈ s.effects ∨ Emits env s e x := by
  subst hs
  unfold sendProfile at hx
  split at hx
  · rcases List.mem_cons.mp hx with rfl | hx
    · exact .inr (.profileSent he ht)
    · exact .inl hx
  · exact .inl hx

theorem commandDispatcherWith_effects
    {hs : Env → DelugeMsgSummary → RimeAddr → Node → Node} {announce : Node → Node}
    {sender : RimeAddr} {b : Packetbuf} {s' : Node} {Q : Prop}
    (hsum : ∀ m, b.message = some (.summary m) → x ∈ (hs env m sender s).effects →
      x ∈ s.effects ∨ Emits env s (.receive sender b) x ∨ Q)
    (ha : ∀ p, b.message = some (.packet p) → ∀ t : Node, t.object = s.object.store env p →
      t.objectId = s.objectId → s.object.Completes p → s.object.AtLast →
      x ∈ (announce { t with version := t.updateVersion }).effects → x ∈ t.effects ∨ Q)
    (h : commandDispatcherWith hs (handlePacketWith announce) env sender b s = some s')
    (hx : x ∈ s'.effects) : x ∈ s.effects ∨ Emits env s (.receive sender b) x ∨ Q := by
  rw [commandDispatcherWith_eq] at h
  cases hm : b.message with
  | none =>
    simp only [hm, Option.some.injEq] at h
    exact .inl (h ▸ hx)
  | some m =>
    cases m with
    | summary m =>
      simp only [hm, Option.some.injEq] at h
      exact hsum m hm (h ▸ hx)
    | request m =>
      simp only [hm, Option.some.injEq] at h
      exact (handleRequest_effects (e := .receive sender b) hm (h ▸ hx)).imp_right .inl
    | packet p =>
      simp only [hm] at h
      exact handlePacketWith_effects (e := .receive sender b) hm (ha p hm) h hx
    | profile m =>
      simp only [hm, Option.some.injEq] at h
      exact (handleProfile_effects (e := .receive sender b) hm (h ▸ hx)).imp_right .inl

/-! ## The timers -/

theorem unicastRequest_emits (ht : s.rxTimer = true)
    (hx : x ∈ (unicastRequest (takeRx { s with effects := [] })).effects) :
    Emits env s .rxTimer x := by
  rcases List.mem_cons.mp hx with rfl | hx
  · exact .request rfl ht
  · rcases List.mem_cons.mp hx with rfl | hx
    · exact .requested rfl ht
    · cases hx

theorem txTimer_emits (hx : x ∈ (if s.txTimer then
      txCallback env { s with effects := [], txTimer := false }
    else { s with effects := [] }).effects) : Emits env s .txTimer x := by
  split at hx
  · rename_i ht
    rcases txCallback_effects (s := { s with effects := [] }) rfl ht rfl hx with hx | hx
    · cases hx
    · exact hx.of_cleared
  · cases hx

theorem summaryTimer_emits (hx : x ∈ (if s.summaryTimer then
      advertiseSummary { s with effects := [], summaryTimer := false }
    else { s with effects := [] }).effects) : Emits env s .summaryTimer x := by
  split at hx
  · rename_i ht
    rcases advertiseSummary_effects _ hx with hx | hx | rfl
    · cases hx
    · exact .scan hx
    · exact .summary rfl ht
  · cases hx

theorem profileTimer_emits (hx : x ∈ (if s.profileTimer then
      sendProfile { s with effects := [], profileTimer := false }
    else { s with effects := [] }).effects) : Emits env s .profileTimer x := by
  split at hx
  · rename_i ht
    rcases sendProfile_effects (s := { s with effects := [] }) rfl ht rfl hx with hx | hx
    · cases hx
    · exact hx.of_cleared
  · cases hx

end

/-! ## The two files -/

namespace Rx

/-- The effects of an event of the receiver. -/
inductive Emits (env : Env) (s : Node) (e : Event) : Effect → Prop
  | shared {x : Effect} : Deluge.Emits env s e x → Emits env s e x
  /-- The record of the current page, in `handle_summary`. -/
  | offer {m : DelugeMsgSummary} : e.message = some (.summary m) → m.version = s.updateVersion →
      s.object.available < m.highestAvailable → m.highestAvailable ≤ s.pageCount →
      Emits env s e (.page s.currentRxPage s.entries)
  /-- `highest_available_page` in the summary that follows the last page. -/
  | announceScan {p : DelugeMsgPacket} {x : Effect} : e.message = some (.packet p) →
      s.object.Completes p → s.object.AtLast → (s.object.store env p).Scanned x → Emits env s e x
  /-- That summary. -/
  | announce {p : DelugeMsgPacket} : e.message = some (.packet p) →
      s.object.Completes p → s.object.AtLast →
      Emits env s e (.broadcast (DelugeMsgSummary.bytes
        ⟨s.updateVersion, (s.object.store env p).available, s.objectId⟩))

variable {env : Env} {s : Node} {e : Event} {x : Effect}

theorem Emits.of_cleared (h : Emits env { s with effects := [] } e x) : Emits env s e x := by
  cases h with
  | shared h => exact .shared h.of_cleared
  | offer hm hv ha hc => exact .offer hm hv ha hc
  | announceScan hm hc hl h => exact .announceScan hm hc hl h
  | announce hm hc hl => exact .announce hm hc hl

theorem handleSummary_effects {m : DelugeMsgSummary} {sender : RimeAddr}
    (hm : e.message = some (.summary m)) (hx : x ∈ (handleSummary env m sender s).effects) :
    x ∈ s.effects ∨ Deluge.Emits env s e x ∨ Emits env s e x := by
  have hscan : x ∈ (scanPages s).effects →
      x ∈ s.effects ∨ Deluge.Emits env s e x ∨ Emits env s e x :=
    fun hx => (scanPages_effects s hx).imp_right fun h => .inl (.scan h)
  have hobj : (askProfile m sender
      (noteSummary m (highestAvailablePage s) (scanPages s))).object = s.object := by
    rw [askProfile_object, noteSummary_object, scanPages_object]
  have heff : (askProfile m sender
      (noteSummary m (highestAvailablePage s) (scanPages s))).effects = (scanPages s).effects := by
    simp only [askProfile, noteSummary]
  unfold handleSummary at hx
  dsimp only at hx
  generalize askProfile m sender (noteSummary m (highestAvailablePage s) (scanPages s)) = t
    at hx hobj heff
  have hversion : t.updateVersion = s.updateVersion := congrArg Object.updateVersion hobj
  have hcount : t.pageCount = s.pageCount := congrArg Object.pageCount hobj
  have hcurrent : t.currentRxPage = s.currentRxPage := congrArg Object.currentRxPage hobj
  have hentries : t.entries = s.entries := congrArg Object.entries hobj
  split at hx
  · rename_i h
    unfold offerRequest at hx
    split at hx
    · exact hscan (heff ▸ hx)
    · rename_i hc
      have hoffer : x ∈ (t.touch t.currentRxPage).effects →
          x ∈ s.effects ∨ Deluge.Emits env s e x ∨ Emits env s e x := by
        intro hx
        rcases List.mem_cons.mp hx with rfl | hx
        · rw [hcurrent, hentries]
          exact .inr (.inr (.offer hm (hversion ▸ h.1) h.2 (hcount ▸ Nat.le_of_not_lt hc)))
        · exact hscan (heff ▸ hx)
      dsimp only at hx
      split at hx
      · exact hoffer hx
      · simp only [armExpiredRx, transition_effects] at hx
        exact hoffer hx
  · exact hscan (heff ▸ hx)

/-- `advertise_summary` in the state that `handle_packet` calls it in. -/
theorem announce_effects {t : Node} {o : Object} (hobj : t.object = o)
    (hx : x ∈ (advertiseSummary { t with version := t.updateVersion }).effects) :
    x ∈ t.effects ∨ o.Scanned x ∨
      x = .broadcast (DelugeMsgSummary.bytes ⟨o.updateVersion, o.available, t.objectId⟩) := by
  subst hobj
  have h := advertiseSummary_effects _ hx
  exact h

/-- A step of the receiver has no effects but these. -/
theorem step_emits {s' : Node} (h : step env e s = some s') (hx : x ∈ s'.effects) :
    Emits env s e x := by
  cases e with
  | receive sender b =>
    have hpacket : ∀ p, b.message = some (.packet p) → ∀ t : Node,
        t.object = s.object.store env p → t.objectId = s.objectId → s.object.Completes p →
        s.object.AtLast → x ∈ (advertiseSummary { t with version := t.updateVersion }).effects →
        x ∈ t.effects ∨ Emits env s (.receive sender b) x := by
      intro p hm t hobj hid hc hl hx
      rcases announce_effects hobj hx with hx | hx | rfl
      · exact .inl hx
      · exact .inr (.announceScan hm hc hl hx)
      · rw [hid]
        exact .inr (.announce hm hc hl)
    rcases commandDispatcherWith_effects (s := { s with effects := [] })
      (fun m hm hx => (handleSummary_effects (e := .receive sender b) hm hx).imp_right
        (Or.imp_right Emits.of_cleared)) hpacket h hx with hx | hx | hx
    · cases hx
    · exact .shared hx.of_cleared
    · exact hx
  | rxExpires =>
    cases h
    cases hx
  | rxTimer =>
    cases h
    dsimp only at hx
    split at hx
    · rename_i ht
      simp only [sendRequest, limitRequests_effects] at hx
      exact .shared (unicastRequest_emits ht hx)
    · cases hx
  | txTimer =>
    cases h
    exact .shared (txTimer_emits hx)
  | summaryTimer =>
    cases h
    exact .shared (summaryTimer_emits hx)
  | profileTimer =>
    cases h
    exact .shared (profileTimer_emits hx)
  | round =>
    cases h
    cases hx

end Rx

namespace Tx

/-- The effects of an event of the gateway. -/
inductive Emits (env : Env) (s : Node) (e : Event) : Effect → Prop
  | shared {x : Effect} : Deluge.Emits env s e x → Emits env s e x
  /-- The records whose time stamps `handle_summary` compares. -/
  | offer {m : DelugeMsgSummary} {i : Nat} : e.message = some (.summary m) →
      i < m.highestAvailable → m.highestAvailable ≤ s.pageCount →
      Emits env s e (.page i s.entries)
  /-- The report `handle_summary` posts. -/
  | post {sender : RimeAddr} {b : Packetbuf} {m : DelugeMsgSummary} : e = .receive sender b →
      b.message = some (.summary m) → m.version = s.version →
      m.highestAvailable = s.object.available → Emits env s e (.post sender)

variable {env : Env} {s : Node} {e : Event} {x : Effect}

theorem Emits.of_cleared (h : Emits env { s with effects := [] } e x) : Emits env s e x := by
  cases h with
  | shared h => exact .shared h.of_cleared
  | offer hm hi hc => exact .offer hm hi hc
  | post he hm hv ha => exact .post he hm hv ha

theorem handleSummary_effects {m : DelugeMsgSummary} {sender : RimeAddr} {b : Packetbuf}
    (hm : b.message = some (.summary m)) (hx : x ∈ (handleSummary env m sender s).effects) :
    x ∈ s.effects ∨ Deluge.Emits env s (.receive sender b) x ∨
      Emits env s (.receive sender b) x := by
  have hscan : x ∈ (scanPages s).effects → x ∈ s.effects ∨
      Deluge.Emits env s (.receive sender b) x ∨ Emits env s (.receive sender b) x :=
    fun hx => (scanPages_effects s hx).imp_right fun h => .inl (.scan h)
  unfold handleSummary at hx
  dsimp only at hx
  have hobj : (postReport m sender (highestAvailablePage s)
      (noteSummary m (highestAvailablePage s) (scanPages s))).object = s.object := by
    rw [postReport_object, noteSummary_object, scanPages_object]
  have hpost : x ∈ (postReport m sender (highestAvailablePage s)
      (noteSummary m (highestAvailablePage s) (scanPages s))).effects → x ∈ s.effects ∨
        Deluge.Emits env s (.receive sender b) x ∨ Emits env s (.receive sender b) x := by
    unfold postReport
    intro hx
    split at hx
    · rename_i h
      rcases List.mem_cons.mp hx with rfl | hx
      · exact .inr (.inr (.post rfl hm h.1 h.2))
      · exact hscan hx
    · exact hscan hx
  generalize postReport m sender (highestAvailablePage s)
    (noteSummary m (highestAvailablePage s) (scanPages s)) = t at hx hobj hpost
  have hcount : t.pageCount = s.pageCount := congrArg Object.pageCount hobj
  have hentries : t.entries = s.entries := congrArg Object.entries hobj
  split at hx
  · unfold offerRequest at hx
    split at hx
    · exact hpost hx
    · rename_i hc
      have hoffer : x ∈ (t.touchBelow m.highestAvailable).effects → x ∈ s.effects ∨
          Deluge.Emits env s (.receive sender b) x ∨ Emits env s (.receive sender b) x :=
        fun hx => by
          rcases touchBelow_effects t _ hx with hx | ⟨i, hi, rfl⟩
          · exact hpost hx
          · rw [hentries]
            exact .inr (.inr (.offer (e := .receive sender b) hm hi
              (hcount ▸ Nat.le_of_not_lt hc)))
      dsimp only at hx
      split at hx
      · exact hoffer hx
      · simp only [armExpiredRx, transition_effects] at hx
        exact hoffer hx
  · exact hpost hx

/-- A step of the gateway has no effects but these. -/
theorem step_emits {s' : Node} (h : step env e s = some s') (hx : x ∈ s'.effects) :
    Emits env s e x := by
  cases e with
  | receive sender b =>
    rcases commandDispatcherWith_effects (s := { s with effects := [] })
      (Q := Emits env s (.receive sender b) x)
      (fun m hm hx => (handleSummary_effects hm hx).imp_right
        (Or.imp_right Emits.of_cleared)) (fun p hm t hobj hid hc hl hx => .inl hx) h hx
      with hx | hx | hx
    · cases hx
    · exact .shared hx.of_cleared
    · exact hx
  | rxExpires =>
    cases h
    cases hx
  | rxTimer =>
    cases h
    dsimp only at hx
    split at hx
    · rename_i ht
      simp only [sendRequest, limitRequests_effects] at hx
      exact .shared (unicastRequest_emits ht hx)
    · cases hx
  | txTimer =>
    cases h
    exact .shared (txTimer_emits hx)
  | summaryTimer =>
    cases h
    exact .shared (summaryTimer_emits hx)
  | profileTimer =>
    cases h
    exact .shared (profileTimer_emits hx)
  | round =>
    cases h
    cases hx

end Tx

end Adler.Deluge
