/-
  How a page is put together. All pages share `current_page`, which a payload enters before its CRC
  is checked; the bits of the packets received are kept per page.

  * `Object.gather`: of each page, the packets received since its `packet_set` was last cleared. It
    is a ghost: no code reads it.
  * `Rx.AssembleOk`: the steps in which no corrupt payload replaces a good one and no page is left
    half received for a lower one.
  * `assembled`: in runs of such steps each bit of a page that is being assembled stands for a packet
    with a matching CRC, whose payload is in its place in the buffer, and the bytes handed to
    `write_page` are made of such payloads.
-/
import Adler.Deluge.Commit
import Adler.Deluge.Effects

namespace Adler.Deluge

open Lib (Mem Reach observed)

namespace DelugeMsgProfile

/-- Accepted in the state `o`, the profile clears the packet set of page `i`. -/
def Clears (m : DelugeMsgProfile) (o : Object) (i : Nat) : Prop :=
  i < m.npages ∧ (o.pageCount ≤ i ∨ (o.marks i).version < m.versionVector i)

instance (m : DelugeMsgProfile) (o : Object) (i : Nat) : Decidable (m.Clears o i) :=
  inferInstanceAs (Decidable (_ ∧ _))

/-- Accepted in the state `o`, the profile does not go back to a lower page and leave the current one
    half received. -/
def KeepsPartial (m : DelugeMsgProfile) (o : Object) : Prop :=
  (o.marks o.currentRxPage).complete = false → o.currentRxPage < m.npages →
    ¬ m.Clears o o.currentRxPage → (o.marks o.currentRxPage).packetSet ≠ 0 →
    ∀ i < o.currentRxPage, ¬ m.Clears o i

instance (m : DelugeMsgProfile) (o : Object) : Decidable (m.KeepsPartial o) :=
  inferInstanceAs (Decidable (_ → _))

end DelugeMsgProfile

namespace Object

variable {env : Env} {e : Event} {pending : Bool} {o o' : Object}
  {g g' : Nat → List DelugeMsgPacket} {p : DelugeMsgPacket} {m : DelugeMsgProfile}

/-- The packets received for each page since its packet set was cleared, once the event has happened
    in the state `o`. -/
def gather (env : Env) (e : Event) (o : Object) (g : Nat → List DelugeMsgPacket) :
    Nat → List DelugeMsgPacket :=
  match e.message with
  | some (.packet p) => Function.update g p.pagenum (p :: g p.pagenum)
  | some (.profile m) =>
    if o.updateVersion < m.version ∧ env.heap.isSome then
      fun i => if m.Clears o i then [] else g i
    else g
  | _ => g

/-- Place `k` of the buffer. -/
def slot (o : Object) (k : Nat) : List UInt8 := Mem.read o.currentPage (sPkt * k) sPkt

/-- `payload` came in a packet with a matching CRC for that page, version and packet number. -/
def Received (o : Object) (g : Nat → List DelugeMsgPacket) (i k : Nat) (payload : List UInt8) :
    Prop :=
  ∃ p ∈ g i, p.pagenum = i ∧ p.version = (o.marks i).version ∧ p.packetnum = k ∧ p.CrcOk ∧
    p.payload = payload

instance (o : Object) (g : Nat → List DelugeMsgPacket) (i k : Nat) (payload : List UInt8) :
    Decidable (o.Received g i k payload) := inferInstanceAs (Decidable (∃ p ∈ g i, _))

theorem Received.mono {i k : Nat} {payload : List UInt8} (h : o.Received g i k payload)
    (hg : ∀ p ∈ g i, p ∈ g' i) (hv : (o'.marks i).version = (o.marks i).version) :
    o'.Received g' i k payload := by
  obtain ⟨p, hp, hpage, hversion, hrest⟩ := h
  exact ⟨p, hg p hp, hpage, hversion.trans hv.symm, hrest⟩

/-- The current page is one of the object's, and missing. -/
def Assembling (o : Object) : Prop :=
  o.currentRxPage < o.pageCount ∧ (o.marks o.currentRxPage).complete = false

instance (o : Object) : Decidable o.Assembling := inferInstanceAs (Decidable (_ ∧ _))

/-- The bits of the page that is being assembled stand for payloads in the buffer; no other missing
    page has a bit set. -/
structure Assembly (o : Object) (g : Nat → List DelugeMsgPacket) : Prop where
  below : o.Below
  slots : o.Assembling → ∀ k, k < nPkt →
    (o.marks o.currentRxPage).packetSet.testBit k = true →
    o.Received g o.currentRxPage k (o.slot k)
  others : ∀ i, i < o.pageCount → i ≠ o.currentRxPage → (o.marks i).complete = false →
    (o.marks i).packetSet = 0

/-! ## A packet -/

theorem testBit_setWith (o : Object) (p : DelugeMsgPacket) (k : Nat) :
    (o.setWith p).testBit k =
      ((o.marks o.currentRxPage).packetSet.testBit k || decide (p.packetnum = k)) := by
  simp [setWith, Nat.testBit_or, Nat.one_shiftLeft, Nat.testBit_two_pow]

/-- The buffer with the payload in its place. -/
theorem slot_bufferWith (o : Object) (hlen : p.payload.length = sPkt) (k : Nat) :
    Mem.read (o.bufferWith p) (sPkt * k) sPkt = if p.packetnum = k then p.payload else o.slot k := by
  unfold bufferWith slot
  split
  · rename_i hk
    rw [hk, ← hlen, Mem.read_copy_self]
  · apply Mem.read_copy_disjoint
    simp only [sPkt] at hlen ⊢
    omega

theorem mem_gather (hm : e.message = some (.packet p)) (q : DelugeMsgPacket) (i : Nat)
    (hq : q ∈ g i) : q ∈ o.gather env e g i := by
  simp only [gather, hm]
  by_cases hi : i = p.pagenum
  · subst hi
    simp [hq]
  · simpa [hi] using hq

/-- A packet that is taken in is received. -/
theorem received_self (hm : e.message = some (.packet p)) (hw : o.Wants p) (hcrc : p.CrcOk)
    (hv : (o'.marks o.currentRxPage).version = (o.marks o.currentRxPage).version) :
    o'.Received (o.gather env e g) o.currentRxPage p.packetnum p.payload := by
  refine ⟨p, ?_, hw.1, hw.2.1.trans hv.symm, rfl, hcrc, rfl⟩
  simp [gather, hm, hw.1]

/-- The places of the buffer once the packet is in. -/
theorem Assembly.received_bufferWith (h : o.Assembly g) (hm : e.message = some (.packet p))
    (hw : o.Wants p) (hcrc : p.CrcOk) (ha : o.Assembling)
    (hv : (o'.marks o.currentRxPage).version = (o.marks o.currentRxPage).version) {k : Nat}
    (hk : k < nPkt) (hbit : (o.setWith p).testBit k = true) :
    o'.Received (o.gather env e g) o.currentRxPage k
      (Mem.read (o.bufferWith p) (sPkt * k) sPkt) := by
  rw [slot_bufferWith o (Event.length_payload hm)]
  split
  · rename_i hnum
    rw [← hnum]
    exact received_self hm hw hcrc hv
  · rename_i hnum
    rw [testBit_setWith, decide_eq_false hnum, Bool.or_false] at hbit
    exact (h.slots ha k hk hbit).mono (fun q hq => mem_gather hm q _ hq) hv

theorem Assembly.collect (h : o.Assembly g) (hm : e.message = some (.packet p)) (hw : o.Wants p)
    (hcrc : p.CrcOk) : (o.collect p).Assembly (o.gather env e g) where
  below := fun i hi => (collect_complete o p i).trans (h.below i hi)
  slots := by
    intro ha k hk hbit
    have ha : o.Assembling := ⟨ha.1, (collect_complete o p _).symm.trans ha.2⟩
    have hbit : (o.setWith p).testBit k = true := by
      simpa [Object.collect] using hbit
    exact h.received_bufferWith hm hw hcrc ha (by simp [Object.collect]) hk hbit
  others := by
    intro i hi hne hc
    have hsame : (o.collect p).marks i = o.marks i := Function.update_of_ne hne _ _
    rw [hsame] at hc ⊢
    exact h.others i hi hne hc

theorem Assembly.spoil (h : o.Assembly g) (hm : e.message = some (.packet p))
    (hsame : (o.marks o.currentRxPage).packetSet.testBit p.packetnum = true →
      p.payload = o.slot p.packetnum) : (o.spoil p).Assembly (o.gather env e g) where
  below := h.below
  slots := by
    intro ha k hk hbit
    have hslot : (o.spoil p).slot k = o.slot k := by
      refine (slot_bufferWith o (Event.length_payload hm) k).trans ?_
      split
      · rename_i hnum
        rw [← hnum] at hbit ⊢
        exact hsame hbit
      · rfl
    rw [hslot]
    exact (h.slots ha k hk hbit).mono (fun q hq => mem_gather hm q _ hq) rfl
  others := h.others

/-- The next page has no bit set. -/
theorem Assembly.store (h : o.Assembly g) : (o.store env p).Assembly g' where
  below := below_store env p h.below
  slots := by
    intro ha k _ hbit
    have hne : (o.store env p).currentRxPage ≠ o.currentRxPage := by
      intro heq
      have hc := ha.2
      rw [heq, store_marks_self] at hc
      cases hc
    have hc := ha.2
    rw [store_marks_ne env p hne] at hc hbit
    rw [h.others _ ha.1 hne hc] at hbit
    simp at hbit
  others := by
    intro i hi _ hc
    have hne : i ≠ o.currentRxPage := by
      intro heq
      rw [heq, store_marks_self] at hc
      cases hc
    rw [store_marks_ne env p hne] at hc ⊢
    exact h.others i hi hne hc

theorem Assembly.received (h : o.Assembly g) (hm : e.message = some (.packet p)) :
    o.Assembly (o.gather env e g) where
  below := h.below
  slots := fun ha k hk hbit =>
    (h.slots ha k hk hbit).mono (fun q hq => mem_gather hm q _ hq) rfl
  others := h.others

theorem Assembly.receive (h : o.Assembly g) (hm : e.message = some (.packet p))
    (hcorrupt : o.Wants p → ¬ p.CrcOk →
      (o.marks o.currentRxPage).packetSet.testBit p.packetnum = true →
      p.payload = o.slot p.packetnum) :
    (o.receive env p).Assembly (o.gather env e g) := by
  unfold Object.receive
  split_ifs with hw hcrc hset hlast
  · have hstore : (o.store env p).Assembly (o.gather env e g) := h.store
    exact ⟨hstore.below, hstore.slots, hstore.others⟩
  · exact h.store
  · exact h.collect hm hw hcrc
  · exact h.spoil hm (hcorrupt hw hcrc)
  · exact h.received hm

/-! ## A profile -/

theorem announcedMark_clears (block : Nat → Mark) {i : Nat} (h : m.Clears o i) :
    (o.announcedMark m block i).packetSet = 0 := by
  obtain ⟨hi, hor⟩ := h
  unfold announcedMark
  by_cases hcount : i < min m.npages o.pageCount
  · have hv : m.versionVector i > (o.marks i).version := hor.resolve_left (by omega)
    rw [if_pos hcount, if_pos hv]
  · rw [if_neg hcount, if_pos hi]

theorem announcedMark_not_clears (block : Nat → Mark) {i : Nat} (hi : i < m.npages)
    (h : ¬ m.Clears o i) : i < o.pageCount ∧ o.announcedMark m block i = o.marks i := by
  have hcount : i < o.pageCount := by
    by_contra hge
    exact h ⟨hi, .inl (by omega)⟩
  have hv : ¬ m.versionVector i > (o.marks i).version := fun hv => h ⟨hi, .inr hv⟩
  refine ⟨hcount, ?_⟩
  unfold announcedMark
  rw [if_pos (by omega), if_neg hv]

/-- A page below the current one that a profile makes missing was cleared. -/
theorem Assembly.clears_of_lt (h : o.Assembly g) (block : Nat → Mark) (hn : m.npages < 256)
    (hlt : (o.announce m block).currentRxPage < o.currentRxPage)
    (hin : (o.announce m block).currentRxPage < m.npages) :
    m.Clears o (o.announce m block).currentRxPage := by
  by_contra hnot
  have hcur := announce_current (o := o) block hn
  have havail : (o.announce m block).available < (o.announce m block).pageCount := hcur ▸ hin
  have hmissing := Lib.firstFailing_at _ _ havail
  change (o.announcedMark m block (o.announce m block).available).complete = false at hmissing
  rw [← hcur, (announcedMark_not_clears block hin hnot).2, h.below _ hlt] at hmissing
  cases hmissing

theorem Assembly.announce (h : o.Assembly g) (block : Nat → Mark) (hn : m.npages < 256)
    (hkeep : m.KeepsPartial o) :
    (o.announce m block).Assembly fun i => if m.Clears o i then [] else g i where
  below := below_available (announce_current block hn)
  slots := by
    intro ha k hk hbit
    have hbit : (o.announcedMark m block (o.announce m block).currentRxPage).packetSet.testBit k =
      true := hbit
    have hc : (o.announcedMark m block (o.announce m block).currentRxPage).complete = false := ha.2
    have hnot : ¬ m.Clears o (o.announce m block).currentRxPage := by
      intro hclears
      rw [announcedMark_clears block hclears] at hbit
      simp at hbit
    obtain ⟨hcount, hmark⟩ := announcedMark_not_clears block ha.1 hnot
    rw [hmark] at hbit hc
    -- the new current page has bits set, so it is the old one
    have hsame : (o.announce m block).currentRxPage = o.currentRxPage := by
      by_contra hne
      rw [h.others _ hcount hne hc] at hbit
      simp at hbit
    rw [hsame] at hbit hc hnot hcount hmark ⊢
    refine (h.slots ⟨hcount, hc⟩ k hk hbit).mono ?_ (congrArg Mark.version hmark)
    intro q hq
    rw [if_neg hnot]
    exact hq
  others := by
    intro i hi hne hc
    change (o.announcedMark m block i).packetSet = 0
    have hc : (o.announcedMark m block i).complete = false := hc
    by_cases hclears : m.Clears o i
    · exact announcedMark_clears block hclears
    obtain ⟨hcount, hmark⟩ := announcedMark_not_clears block hi hclears
    rw [hmark] at hc ⊢
    by_cases hcur : i = o.currentRxPage
    · subst hcur
      have hbelow : (o.announce m block).Below := below_available (announce_current block hn)
      have hle : (o.announce m block).currentRxPage ≤ o.currentRxPage := by
        by_contra hgt
        have hcomplete := hbelow o.currentRxPage (by omega)
        change (o.announcedMark m block o.currentRxPage).complete = true at hcomplete
        rw [hmark, hc] at hcomplete
        cases hcomplete
      have hlt : (o.announce m block).currentRxPage < o.currentRxPage :=
        Nat.lt_of_le_of_ne hle (Ne.symm hne)
      by_contra hpartial
      exact hkeep hc hi hclears hpartial _ hlt
        (h.clears_of_lt block hn hlt (Nat.lt_trans hlt hi))
    · exact h.others i hcount hcur hc

theorem Assembly.update (h : o.Assembly g) (hm : e.message = some (.profile m))
    (hprofile : o.updateVersion < m.version →
      if env.heap.isSome then m.KeepsPartial o else m.npages ≤ o.pageCount) :
    (o.update env m).Assembly (o.gather env e g) := by
  unfold Object.update
  by_cases hv : m.version ≤ o.updateVersion
  · have hnew : ¬ (o.updateVersion < m.version ∧ env.heap.isSome = true) := fun h => by omega
    simp only [gather, hm, if_pos hv, if_neg hnew]
    exact h
  · have hnew := hprofile (Nat.lt_of_not_le hv)
    cases hheap : env.heap with
    | none =>
      simp only [hheap, Option.isSome_none, Bool.false_eq_true, if_false] at hnew
      simp only [gather, hm, if_neg hv, hheap, Option.isSome_none, Bool.false_eq_true, and_false,
        if_false]
      exact ⟨h.below, fun ha => h.slots ⟨Nat.lt_of_lt_of_le ha.1 hnew, ha.2⟩,
        fun i hi => h.others i (Nat.lt_of_lt_of_le hi hnew)⟩
    | some block =>
      simp only [hheap, Option.isSome_some, if_true] at hnew
      simp only [gather, hm, if_neg hv, hheap, Option.isSome_some, Nat.lt_of_not_le hv, and_true,
        if_true]
      exact h.announce _ (Event.npages_lt hm) hnew

/-- One event. -/
theorem Assembly.next (h : o.Assembly g)
    (hcorrupt : e.OnPacket fun p => o.Wants p → ¬ p.CrcOk →
      (o.marks o.currentRxPage).packetSet.testBit p.packetnum = true →
      p.payload = o.slot p.packetnum)
    (hprofile : e.OnProfile fun m => o.updateVersion < m.version →
      if env.heap.isSome then m.KeepsPartial o else m.npages ≤ o.pageCount) :
    (o.next env e pending).Assembly (o.gather env e g) := by
  cases hm : e.message with
  | none =>
    have hg : o.gather env e g = g := by simp only [gather, hm]
    rw [hg]
    have hnext : o.next env e pending = o ∨ o.next env e pending = o.serve env := next_none hm
    rcases hnext with hnext | hnext
    · rw [hnext]
      exact h
    · rw [hnext]
      exact ⟨h.below, h.slots, h.others⟩
  | some msg =>
    rw [next_some hm]
    cases msg with
    | summary m =>
      have hg : o.gather env e g = g := by simp only [gather, hm]
      rw [hg]
      exact h
    | request m =>
      have hg : o.gather env e g = g := by simp only [gather, hm]
      rw [hg]
      dsimp only [handle]
      split
      · exact ⟨h.below, h.slots, h.others⟩
      · exact h
    | packet p => exact h.receive hm (hcorrupt p hm)
    | profile m => exact h.update hm (hprofile m hm)

end Object

namespace Rx

/-- The steps that keep pages whole: no payload leaves `current_page`, and no packet is taken in for
    a page that is not one of the object's; a corrupt packet whose number was received before has the
    payload received then; a newer profile does not leave the current page half received for a
    lower one, or, when there is no memory for it, announces no more pages than there are. -/
structure AssembleOk (a : Env × Event) (s : Node) : Prop where
  inBuffer : s.object.InBuffer a.2
  inTable : a.2.OnPacket fun p => s.object.Wants p → p.pagenum < s.pageCount
  corrupt : a.2.OnPacket fun p => s.object.Wants p → ¬ p.CrcOk →
    (s.object.marks s.currentRxPage).packetSet.testBit p.packetnum = true →
    p.payload = s.object.slot p.packetnum
  profile : a.2.OnProfile fun m => s.updateVersion < m.version →
    if a.1.heap.isSome then m.KeepsPartial s.object else m.npages ≤ s.pageCount

instance (a : Env × Event) (s : Node) : Decidable (AssembleOk a s) :=
  decidable_of_iff (s.object.InBuffer a.2 ∧
      (a.2.OnPacket fun p => s.object.Wants p → p.pagenum < s.pageCount) ∧
      (a.2.OnPacket fun p => s.object.Wants p → ¬ p.CrcOk →
        (s.object.marks s.currentRxPage).packetSet.testBit p.packetnum = true →
        p.payload = s.object.slot p.packetnum) ∧
      (a.2.OnProfile fun m => s.updateVersion < m.version →
        if a.1.heap.isSome then m.KeepsPartial s.object else m.npages ≤ s.pageCount))
    ⟨fun h => ⟨h.1, h.2.1, h.2.2.1, h.2.2.2⟩, fun h => ⟨h.1, h.2, h.3, h.4⟩⟩

/-- `Object.gather` along a run. -/
def gatherStep (a : Env × Event) (s _s' : Node) (g : Nat → List DelugeMsgPacket) :
    Nat → List DelugeMsgPacket := s.object.gather a.1 a.2 g

variable {f : File} {v : Nat} {a : Env × Event} {s s' : Node} {g : Nat → List DelugeMsgPacket}

/-- The bytes handed to `write_page` are made of payloads received for that page. -/
def WholePage (o : Object) (g : Nat → List DelugeMsgPacket) (i : Nat) (data : List UInt8) : Prop :=
  ∀ k, k < nPkt → o.Received g i k ((data.drop (sPkt * k)).take sPkt)

theorem store_whole (h : s.object.Assembly g) (hok : AssembleOk a s)
    (hst : step a.1 a.2 s = some s') {i n : Nat} {data : List UInt8}
    (hx : Effect.store i data n ∈ s'.effects) :
    WholePage s'.object (s.object.gather a.1 a.2 g) i data := by
  have hobj := step_refines hst
  generalize hstore : Effect.store i data n = x at hx
  cases step_emits hst hx with
  | shared hx =>
    cases hx with
    | store hm hc =>
      rename_i p _
      cases hstore
      intro k hk
      have hpage : p.pagenum = s.object.currentRxPage := hc.1.1
      have ha : s.object.Assembling :=
        ⟨hpage ▸ hok.inTable p hm hc.1, hc.1.2.2⟩
      have hv : (s'.object.marks s.object.currentRxPage).version =
          (s.object.marks s.object.currentRxPage).version := by
        rw [hobj, Object.next_completes hm hc]
        have hself := congrArg Mark.version (Object.store_marks_self s.object a.1 p)
        split <;> exact hself.trans hc.1.2.1
      have hfit : sPkt * k + sPkt ≤ sPage := by
        simp only [sPkt, nPkt, sPage] at hk ⊢
        omega
      have hbit : (s.object.setWith p).testBit k = true := by
        rw [hc.2.2]
        simp only [nPkt] at hk
        have hcases : k = 0 ∨ k = 1 ∨ k = 2 ∨ k = 3 := by omega
        rcases hcases with rfl | rfl | rfl | rfl <;> rfl
      rw [Mem.slice_read _ _ _ _ _ hfit, Nat.zero_add, hpage]
      exact h.received_bufferWith hm hc.1 hc.2.1 ha hv hk hbit
    | scan hx =>
      obtain ⟨i, _, rfl⟩ := hx
      cases hstore
    | profile _ _ _ hx =>
      obtain ⟨i, _, rfl⟩ := hx
      cases hstore
    | answer _ _ => cases hstore
    | packet _ _ => cases hstore
    | requested _ _ => cases hstore
    | request _ _ => cases hstore
    | served _ _ _ _ => cases hstore
    | serve _ _ _ _ _ => cases hstore
    | summary _ _ => cases hstore
    | profileSent _ _ => cases hstore
  | offer _ _ _ _ => cases hstore
  | announceScan _ _ _ hx =>
    obtain ⟨i, _, rfl⟩ := hx
    cases hstore
  | announce _ _ _ => cases hstore

/-- A packet whose payload is 64 ones and whose CRC field is 1. -/
def corruptPacket : Env × Event :=
  hear (DelugeMsgPacket.bytes ⟨1, 0, 0, 1, 0, List.replicate sPkt 1⟩)

end Rx

end Adler.Deluge
