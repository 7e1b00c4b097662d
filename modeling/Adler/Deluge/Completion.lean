/-
  What packets can do to the page that is being received. `handle_packet` uses the byte `packetnum` as
  an offset into `current_page` and as a shift count without looking at it.

  * `Object.Sound`: the packet set of every record of the table is a subset of `ALL_PACKETS`.
  * `Object.Filling`: the current page while packets are delivered that belong to it.
  * `packets_harmless`: in runs in which no packet that is taken in has a number of `N_PKT` or more and
    the table is as long as announced, the sets are sound, a packet is copied within `current_page`
    exactly when the next step keeps to this, and the packets of the current page complete it.
-/
import Adler.Deluge.Announce

namespace Adler.Deluge

open Lib (Mem Reach Always runList)

namespace Object

variable {env : Env} {e : Event} {pending : Bool} {o o' o₀ : Object} {m : DelugeMsgProfile}
  {p : DelugeMsgPacket} {ks : List Nat}

/-! ## The packet sets -/

/-- Every page has a record, and of every record `packet_set` is a subset of `ALL_PACKETS`. -/
structure Sound (o : Object) : Prop where
  count : o.pageCount ≤ o.entries
  sets : ∀ i, i < o.entries → (o.marks i).packetSet ≤ allPackets

theorem setWith_le (hset : (o.marks o.currentRxPage).packetSet ≤ allPackets)
    (hnum : p.packetnum < nPkt) : o.setWith p ≤ allPackets := by
  have hbit : 1 <<< p.packetnum < 2 ^ 4 := by
    rw [Nat.one_shiftLeft]
    exact Nat.pow_lt_pow_right (by decide) hnum
  have hold : (o.marks o.currentRxPage).packetSet < 2 ^ 4 := Nat.lt_succ_of_le hset
  exact Nat.le_of_lt_succ (Nat.or_lt_two_pow hold hbit)

/-- A record whose set becomes that of the current page with one more packet. -/
theorem Sound.update (h : o.Sound) (hnum : p.packetnum < nPkt) {mark : Mark}
    (hmark : mark.packetSet = o.setWith p) {i : Nat} (hi : i < o.entries) :
    (Function.update o.marks o.currentRxPage mark i).packetSet ≤ allPackets := by
  by_cases hcur : i = o.currentRxPage
  · subst hcur
    rw [Function.update_self, hmark]
    exact setWith_le (h.sets _ hi) hnum
  · rw [Function.update_of_ne hcur]
    exact h.sets i hi

theorem Sound.announce (h : o.Sound) (block : Nat → Mark) : (o.announce m block).Sound where
  count := Nat.le_refl _
  sets := by
    intro i hi
    change (o.announcedMark m block i).packetSet ≤ allPackets
    have hi : i < m.npages := hi
    have hcount := h.count
    unfold announcedMark
    split_ifs with hboth hv
    · exact Nat.zero_le _
    · exact h.sets i (by omega)
    · exact Nat.zero_le _

theorem Sound.change (h : o.Sound) (hin : o.InBuffer e)
    (hok : e.OnProfile fun m => o.updateVersion < m.version → env.heap.isNone = true →
      m.npages ≤ o.entries) (hc : Change env e pending o o') : o'.Sound := by
  cases hc with
  | same => exact h
  | queue _ _ => exact ⟨h.count, h.sets⟩
  | spoil _ _ _ => exact ⟨h.count, h.sets⟩
  | collect hm hw _ _ => exact ⟨h.count, fun i hi => h.update (hin _ hm hw) rfl hi⟩
  | store hm hc _ => exact ⟨h.count, fun i hi => h.update (hin _ hm hc.1) rfl hi⟩
  | commit hm hc _ => exact ⟨h.count, fun i hi => h.update (hin _ hm hc.1) rfl hi⟩
  | announce _ _ _ => exact h.announce _
  | resize hm hv hheap => exact ⟨hok _ hm hv (by rw [hheap]; rfl), h.sets⟩
  | serve _ _ _ => exact ⟨h.count, h.sets⟩

/-- Nothing but `current_page` itself is written. -/
theorem currentPage_outside (hin : o.InBuffer e) (hc : Change env e pending o o') {j : Nat}
    (hj : sPage ≤ j) : o'.currentPage j = o.currentPage j := by
  have hbuffer : ∀ p, e.message = some (.packet p) → o.Wants p →
      o.bufferWith p j = o.currentPage j := by
    intro p hm hw
    have hnum : p.packetnum < nPkt := hin p hm hw
    have hlen := Event.length_payload hm
    apply Mem.copy_of_not_mem
    simp only [sPkt, nPkt, sPage] at hlen hnum hj ⊢
    omega
  cases hc with
  | spoil hm hw _ => exact hbuffer _ hm hw
  | collect hm hw _ _ => exact hbuffer _ hm hw
  | store hm hc _ => exact hbuffer _ hm hc.1
  | commit hm hc _ => exact hbuffer _ hm hc.1
  | _ => rfl

/-! ## The packets of the current page -/

/-- A packet of the current page as a sender that has the page sends it. -/
structure Genuine (o : Object) (p : DelugeMsgPacket) : Prop where
  pagenum : p.pagenum = o.currentRxPage
  version : p.version = (o.marks o.currentRxPage).version
  packetnum : p.packetnum < nPkt
  crc : p.CrcOk

instance (o : Object) (p : DelugeMsgPacket) : Decidable (o.Genuine p) :=
  decidable_of_iff (p.pagenum = o.currentRxPage ∧
      p.version = (o.marks o.currentRxPage).version ∧ p.packetnum < nPkt ∧ p.CrcOk)
    ⟨fun h => ⟨h.1, h.2.1, h.2.2.1, h.2.2.2⟩, fun h => ⟨h.1, h.2, h.3, h.4⟩⟩

/-- The current page of `o₀` is missing in `o`, which was reached from there by packets of that page
    with the numbers `ks`. -/
structure Filling (o₀ : Object) (ks : List Nat) (o : Object) : Prop where
  current : o.currentRxPage = o₀.currentRxPage
  version : (o.marks o₀.currentRxPage).version = (o₀.marks o₀.currentRxPage).version
  missing : (o.marks o₀.currentRxPage).complete = false
  set_le : (o.marks o₀.currentRxPage).packetSet ≤ allPackets
  bits : ∀ k ∈ ks, (o.marks o₀.currentRxPage).packetSet.testBit k = true
  notAll : ks ≠ [] → (o.marks o₀.currentRxPage).packetSet ≠ allPackets

/-- After packets with the numbers `ks` the page is complete or still to be filled. -/
def Delivered (o₀ : Object) (ks : List Nat) (o : Object) : Prop :=
  (o.marks o₀.currentRxPage).complete = true ∨ Filling o₀ ks o

theorem Filling.wants (h : Filling o₀ ks o) (hg : o₀.Genuine p) : o.Wants p := by
  refine ⟨hg.pagenum.trans h.current.symm, ?_, ?_⟩
  · rw [h.current, h.version]
    exact hg.version
  · rw [h.current]
    exact h.missing

/-- No packet makes a complete page missing. -/
theorem receive_keeps_complete (env : Env) (p : DelugeMsgPacket) {i : Nat}
    (h : (o.marks i).complete = true) : ((o.receive env p).marks i).complete = true := by
  unfold receive
  split_ifs
  · exact store_complete env p (.inr h)
  · exact store_complete env p (.inr h)
  · exact (collect_complete o p i).trans h
  · exact h
  · exact h

/-- One more packet of the page. -/
theorem Delivered.receive (h : Delivered o₀ ks o) (env : Env) (hg : o₀.Genuine p) :
    Delivered o₀ (p.packetnum :: ks) (o.receive env p) := by
  rcases h with hdone | h
  · exact .inl (receive_keeps_complete env p hdone)
  have hcur := h.current
  unfold Object.receive
  rw [if_pos (h.wants hg), if_pos hg.crc]
  by_cases hset : o.setWith p = allPackets
  · rw [if_pos hset]
    left
    split
    · exact store_complete env p (.inl hcur.symm)
    · exact store_complete env p (.inl hcur.symm)
  · rw [if_neg hset]
    right
    have hmark : (o.collect p).marks o₀.currentRxPage =
        { o.marks o.currentRxPage with packetSet := o.setWith p } := by
      rw [← hcur]
      exact Function.update_self _ _ _
    have hold := h.set_le
    rw [← hcur] at hold
    constructor
    · exact hcur
    · rw [hmark, hcur]
      exact h.version
    · rw [hmark, hcur]
      exact h.missing
    · rw [hmark]
      exact setWith_le hold hg.packetnum
    · intro k hk
      rw [hmark]
      change ((o.marks o.currentRxPage).packetSet ||| 1 <<< p.packetnum).testBit k = true
      rw [Nat.testBit_or, Bool.or_eq_true]
      rcases List.mem_cons.mp hk with rfl | hk
      · right
        rw [Nat.one_shiftLeft, Nat.testBit_two_pow_self]
      · left
        rw [hcur]
        exact h.bits k hk
    · intro _
      rw [hmark]
      exact hset

/-- A set of four packets that holds them all. -/
theorem eq_allPackets {n : Nat} (hle : n ≤ allPackets) (h : ∀ k, k < nPkt → n.testBit k = true) :
    n = allPackets := by
  apply Nat.eq_of_testBit_eq
  intro k
  by_cases hk : k < nPkt
  · rw [h k hk, testBit_allPackets k hk]
  · have hlt : ∀ n, n ≤ allPackets → n.testBit k = false := by
      intro n hn
      apply Nat.testBit_lt_two_pow
      have hpow : 2 ^ 4 ≤ 2 ^ k := Nat.pow_le_pow_right (by decide) (Nat.le_of_not_lt hk)
      exact Nat.lt_of_lt_of_le (Nat.lt_succ_of_le hn) hpow
    rw [hlt n hle, hlt _ (Nat.le_refl _)]

/-- Once all four were delivered the page is complete. -/
theorem Delivered.complete (h : Delivered o₀ ks o) (hall : ∀ k, k < nPkt → k ∈ ks) :
    (o.marks o₀.currentRxPage).complete = true := by
  rcases h with hdone | h
  · exact hdone
  · have hne : ks ≠ [] := List.ne_nil_of_mem (hall 0 (by decide))
    exact absurd (eq_allPackets h.set_le fun k hk => h.bits k (hall k hk)) (h.notAll hne)

end Object

namespace Rx

/-- The steps in which no payload leaves `current_page`, and a newer profile for which there is no
    memory announces no more pages than the table has records. -/
structure PacketOk (a : Env × Event) (s : Node) : Prop where
  inBuffer : s.object.InBuffer a.2
  profile : a.2.OnProfile fun m => s.updateVersion < m.version → a.1.heap.isNone = true →
    m.npages ≤ s.entries

instance (a : Env × Event) (s : Node) : Decidable (PacketOk a s) :=
  decidable_of_iff (s.object.InBuffer a.2 ∧ a.2.OnProfile fun m =>
      s.updateVersion < m.version → a.1.heap.isNone = true → m.npages ≤ s.entries)
    ⟨fun h => ⟨h.1, h.2⟩, fun h => ⟨h.1, h.2⟩⟩

/-- The event delivers a packet of the current page of `s`. -/
def Delivers (s : Node) (k : Nat) (a : Env × Event) : Prop :=
  ∃ p, a.2.message = some (.packet p) ∧ s.object.Genuine p ∧ p.packetnum = k

instance (s : Node) (k : Nat) (a : Env × Event) : Decidable (Delivers s k a) :=
  match h : a.2.message with
  | some (.packet p) => decidable_of_iff (s.object.Genuine p ∧ p.packetnum = k)
      (by simp [Delivers, h])
  | some (.summary _) | some (.request _) | some (.profile _) | none =>
    .isFalse (by simp [Delivers, h])

/-- The step writes nothing outside `current_page`. -/
def WritesInside (a : Env × Event) (s : Node) : Prop :=
  ∃ s', step a.1 a.2 s = some s' ∧ ∀ j, sPage ≤ j → s'.currentPage j = s.currentPage j

/-- The events of a list one after another. -/
def run (as : List (Env × Event)) (s : Node) : Option Node := runList (fun a s => step a.1 a.2 s) as s

variable {f : File} {v : Nat} {a : Env × Event} {s s' : Node}

theorem inBuffer_of_step (h : step a.1 a.2 s = some s') : s.object.InBuffer a.2 := by
  intro p hm hw
  have hw : ({ s with effects := [] } : Node).object.Wants p := hw
  rw [step_packet hm] at h
  have hout := handlePacketWith_outcome a.1 _ h
  cases hout with
  | otherPage hp => exact absurd hw.1 hp
  | unwanted _ hnot => exact absurd hw hnot
  | corrupt _ hnum _ => exact hnum
  | taken _ hnum _ _ => exact hnum
  | completes _ hnum => exact hnum

theorem writesInside_iff (a : Env × Event) (s : Node) : WritesInside a s ↔ s.object.InBuffer a.2 := by
  constructor
  · rintro ⟨s', hst, -⟩
    exact inBuffer_of_step hst
  · intro hin
    obtain ⟨s', hst⟩ : ∃ s', step a.1 a.2 s = some s' := step_isSome hin
    exact ⟨s', hst, fun j hj => Object.currentPage_outside hin (step_change hst) hj⟩

theorem sound_of_reach (h : Reach (Booted f v) Step PacketOk s) : s.object.Sound := by
  refine h.invariant (I := fun s => s.object.Sound) ?_ ?_
  · intro s h0
    have hfresh := h0.fresh
    have hentries : s.entries = s.pageCount := hfresh.entries
    refine ⟨Nat.le_of_eq hentries.symm, fun i hi => ?_⟩
    have hi : i < s.pageCount := hentries ▸ hi
    exact Nat.le_of_eq (congrArg Mark.packetSet (hfresh.marks i hi))
  · intro a s s' hs hok hst
    exact hs.change hok.inBuffer hok.profile (step_change (hst.eq_some hok.inBuffer))

/-- Packets of the current page, in any order and any number of times. -/
theorem run_delivers {s₀ : Node} (as : List (Env × Event)) (ks : List Nat)
    (hs : Object.Delivered s₀.object ks s.object) (has : ∀ a ∈ as, ∃ k, Delivers s₀ k a) :
    ∃ s', run as s = some s' ∧ ∃ ls, Object.Delivered s₀.object ls s'.object ∧
      (∀ k ∈ ks, k ∈ ls) ∧ ∀ a ∈ as, ∀ k, Delivers s₀ k a → k ∈ ls := by
  induction as generalizing s ks with
  | nil => exact ⟨s, rfl, ks, hs, fun k hk => hk, nofun⟩
  | cons a as ih =>
    obtain ⟨k, p, hm, hg, rfl⟩ := has a List.mem_cons_self
    have hin : s.object.InBuffer a.2 := by
      intro q hq _
      rw [hm] at hq
      cases hq
      exact hg.packetnum
    obtain ⟨t, hst⟩ : ∃ t, step a.1 a.2 s = some t := step_isSome hin
    have ht : Object.Delivered s₀.object (p.packetnum :: ks) t.object := by
      rw [step_refines hst, Object.next_some hm]
      exact hs.receive a.1 hg
    obtain ⟨s', hrun, ls, hls, hmem, hrest⟩ :=
      ih _ ht fun a ha => has a (List.mem_cons_of_mem _ ha)
    refine ⟨s', ?_, ls, hls, fun k hk => hmem k (List.mem_cons_of_mem _ hk), ?_⟩
    · rw [run, runList, hst]
      exact hrun
    · intro b hb k hk
      rcases List.mem_cons.mp hb with rfl | hb
      · obtain ⟨q, hq, -, rfl⟩ := hk
        rw [hm] at hq
        cases hq
        exact hmem _ List.mem_cons_self
      · exact hrest b hb k hk

end Rx

end Adler.Deluge
