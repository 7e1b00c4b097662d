/-
  Accesses of the page table of a receiver. The current page is one past the last after an update,
  and `rx_timer` may then still be pending for an earlier page.

  * `Object.Indexed`: the page count is within the table, and so is a page queued for sending.
  * `Rx.IndexOk`: the steps that keep the accesses within the table.
  * `pages_in_table`: in runs of such steps every access to `pages[i]` has `i` below the number of
    records, and `rx_timer` is only pending while the current page has one and is not the page count.
-/
import Adler.Deluge.Commit
import Adler.Deluge.Effects
import Adler.Deluge.Timers

namespace Adler.Deluge

open Lib (Mem Reach)

namespace Object

variable {env : Env} {e : Event} {pending : Bool} {o o' : Object} {m : DelugeMsgProfile}
  {p : DelugeMsgPacket}

/-- The table has a record for every page, and for the page that is to be sent. -/
structure Indexed (o : Object) : Prop where
  below : o.Below
  count : o.pageCount ≤ o.entries
  queued : o.Queued → o.currentTxPage.toNat < o.entries

theorem toInt8_toNat {n : Nat} (h : 0 ≤ toInt8 n) : (toInt8 n).toNat ≤ n := by
  unfold toInt8 at h ⊢
  split at h <;> split <;> omega

theorem Indexed.queue (h : o.Indexed) {m : DelugeMsgRequest} (ha : o.Answers m) :
    (o.queue m).Indexed where
  below := h.below
  count := h.count
  queued := by
    rintro ⟨hcur, _⟩
    have hlt : m.pagenum < o.entries := Nat.lt_of_lt_of_le ha.1 h.count
    simp only [Object.queue] at hcur ⊢
    split at hcur
    · rename_i hsame
      rw [if_pos hsame, ← hsame]
      exact hlt
    · rename_i hother
      rw [if_neg hother]
      exact Nat.lt_of_le_of_lt (toInt8_toNat hcur) hlt

/-- A profile for which there is no memory may not announce more pages than there are records. -/
theorem indexed_change (h : o.Indexed)
    (hok : e.OnProfile fun m => o.updateVersion < m.version → env.heap.isNone →
      m.npages ≤ o.entries)
    (hc : Change env e pending o o') : o'.Indexed := by
  have hbelow := below_change h.below hc
  cases hc with
  | same => exact h
  | queue _ ha => exact h.queue ha
  | spoil _ _ _ => exact ⟨hbelow, h.count, h.queued⟩
  | collect _ _ _ _ => exact ⟨hbelow, h.count, h.queued⟩
  | store _ _ _ => exact ⟨hbelow, h.count, h.queued⟩
  | commit _ _ _ => exact ⟨hbelow, h.count, h.queued⟩
  | announce _ _ _ => exact ⟨hbelow, Nat.le_refl _, fun hq => absurd rfl hq.2⟩
  | resize hm hv hheap =>
    refine ⟨hbelow, hok _ hm hv ?_, fun hq => absurd rfl hq.2⟩
    rw [hheap]
    rfl
  | serve _ _ _ => exact ⟨hbelow, h.count, fun hq => absurd rfl hq.2⟩

/-- While some page is missing, the current page is among them or below. -/
theorem Below.current_le (h : o.Below) (ha : o.available < o.pageCount) :
    o.currentRxPage ≤ o.available := by
  by_contra hlt
  have hmissing := Lib.firstFailing_at (fun i => (o.marks i).complete) o.pageCount ha
  have hcomplete := h o.available (by omega)
  exact Bool.false_ne_true (hmissing.symm.trans hcomplete)

/-- A profile that leaves page `i` missing makes a page below the count the current one. -/
theorem announce_current_lt (block : Nat → Mark) (hn : m.npages < 256) {i : Nat}
    (hi : i < m.npages) (hmissing : m.LeavesMissing o i) :
    (o.announce m block).currentRxPage < m.npages := by
  have hcur := announce_current (o := o) block hn
  by_contra hge
  have hcomplete := below_available hcur i (by omega)
  rw [(announce_missing_iff block hi).mpr hmissing] at hcomplete
  cases hcomplete

/-- The current page can be asked for: it has a record, and is not the one past the last. -/
def Requestable (o : Object) : Prop := o.currentRxPage < o.entries ∧ o.currentRxPage ≠ o.pageCount

theorem Indexed.requestable (h : o.pageCount ≤ o.entries) (hlt : o.currentRxPage < o.pageCount) :
    o.Requestable :=
  ⟨Nat.lt_of_lt_of_le hlt h, Nat.ne_of_lt hlt⟩

theorem Scanned.lt {x : Effect} (h : o.Scanned x) (hcount : o.pageCount ≤ o.entries) {i n : Nat}
    (hx : x = .page i n) : i < n := by
  obtain ⟨j, hj, rfl⟩ := h
  cases hx
  omega

end Object

namespace Rx

/-- The steps that keep within the table: no payload leaves `current_page`; a packet of the current
    page is of a page below the count, and does not complete the last page while `rx_timer` is
    pending in another state than RX; a newer profile leaves some page missing, or, when there is no
    memory for it, announces no more pages than the table has records and, while `rx_timer` is
    pending, not as many as the number of the current page. -/
structure IndexOk (a : Env × Event) (s : Node) : Prop where
  inBuffer : s.object.InBuffer a.2
  packet : a.2.OnPacket fun p => p.pagenum = s.currentRxPage → p.pagenum < s.pageCount ∧
    (s.object.Completes p → s.object.AtLast → s.rxTimer = true → s.delugeState = .rx)
  profile : a.2.OnProfile fun m => s.updateVersion < m.version →
    if a.1.heap.isSome then ∃ i < m.npages, m.LeavesMissing s.object i
    else m.npages ≤ s.entries ∧ (s.rxTimer = true → m.npages ≠ s.currentRxPage)

instance (a : Env × Event) (s : Node) : Decidable (IndexOk a s) :=
  decidable_of_iff (s.object.InBuffer a.2 ∧ (a.2.OnPacket fun p => p.pagenum = s.currentRxPage →
      p.pagenum < s.pageCount ∧
      (s.object.Completes p → s.object.AtLast → s.rxTimer = true → s.delugeState = .rx)) ∧
    a.2.OnProfile fun m => s.updateVersion < m.version →
      if a.1.heap.isSome then ∃ i < m.npages, m.LeavesMissing s.object i
      else m.npages ≤ s.entries ∧ (s.rxTimer = true → m.npages ≠ s.currentRxPage))
    ⟨fun h => ⟨h.1, h.2.1, h.2.2⟩, fun h => ⟨h.1, h.2, h.3⟩⟩

/-- `rx_timer` is only pending while the current page can be asked for. -/
structure IndexInv (s : Node) : Prop where
  object : s.object.Indexed
  rx : s.rxTimer = true → s.object.Requestable

variable {f : File} {v : Nat} {a : Env × Event} {s s' : Node}

/-- After a page that was completed in another state than RX, the current page is below the count
    again or `rx_timer` is not pending. -/
theorem store_current_lt {p : DelugeMsgPacket} (hok : IndexOk a s)
    (hm : a.2.message = some (.packet p)) (hc : s.object.Completes p) (hs : s.delugeState ≠ .rx)
    (hor : s.rxTimer = true ∨
      (¬ s.object.AtLast ∧ (s.object.store a.1 p).currentRxPage < s.pageCount)) :
    (s.object.store a.1 p).currentRxPage < s.pageCount := by
  rcases hor with hrx | ⟨_, hlt⟩
  · obtain ⟨hcount, hlast⟩ := hok.packet p hm hc.1.1
    have hnot : ¬ s.object.AtLast := fun h => hs (hlast hc h hrx)
    have hpage : p.pagenum = s.currentRxPage := hc.1.1
    have hle := pageCount_le s
    have hlast' : ¬ s.currentRxPage = (s.pageCount + 65535) % 65536 := hnot
    change (s.currentRxPage + 1) % 256 < s.pageCount
    omega
  · exact hlt

/-- A profile that is accepted makes a page of the new table the current one. -/
theorem announce_requestable {m : DelugeMsgProfile} {block : Nat → Page} (hok : IndexOk a s)
    (hm : a.2.message = some (.profile m)) (hv : s.updateVersion < m.version)
    (hheap : a.1.heap = some block) :
    (s.object.announce m fun i => (block i).mark).Requestable := by
  have hmissing := hok.profile m hm hv
  simp only [hheap, Option.isSome_some, if_true] at hmissing
  obtain ⟨i, hi, hmissing⟩ := hmissing
  exact Object.Indexed.requestable (Nat.le_refl _)
    (Object.announce_current_lt _ (Event.npages_lt hm) hi hmissing)

/-- With no memory for the table of a profile. -/
theorem noMemory_ok {m : DelugeMsgProfile} (hok : IndexOk a s) (hm : a.2.message = some (.profile m))
    (hv : s.updateVersion < m.version) (hheap : a.1.heap = none) :
    m.npages ≤ s.entries ∧ (s.rxTimer = true → m.npages ≠ s.currentRxPage) := by
  have hnone := hok.profile m hm hv
  simp only [hheap, Option.isSome_none, Bool.false_eq_true, if_false] at hnone
  exact hnone

theorem rx_step (h : IndexInv s) (hok : IndexOk a s) (hst : step a.1 a.2 s = some s')
    (ht : s'.rxTimer = true) : s'.object.Requestable := by
  have hobj := step_refines hst
  cases (step_timers hst).rx ht with
  | kept hrx hp =>
    have hsame := h.rx hrx
    have hchange := step_change hst
    generalize s'.object = o' at hchange
    cases hchange with
    | same => exact hsame
    | queue _ _ => exact hsame
    | spoil _ _ _ => exact hsame
    | collect _ _ _ _ => exact hsame
    | store hm hc _ => exact absurd hc (hp _ hm)
    | commit hm hc _ => exact absurd hc (hp _ hm)
    | announce hm hv hheap => exact announce_requestable hok hm hv hheap
    | resize hm hv hheap => exact ⟨hsame.1, ((noMemory_ok hok hm hv hheap).2 hrx).symm⟩
    | serve _ _ _ => exact hsame
  | stored hm hc hs hor =>
    have hlt := store_current_lt hok hm hc hs hor
    rw [hobj, Object.next_completes hm hc]
    split <;> exact Object.Indexed.requestable h.object.count hlt
  | offered hm hv ha hc =>
    rw [hobj, Object.next_summary hm]
    have hlt : s.object.available < s.object.pageCount := Nat.lt_of_lt_of_le ha hc
    exact Object.Indexed.requestable h.object.count
      (Nat.lt_of_le_of_lt (h.object.below.current_le hlt) hlt)
  | accepted hm hv hheap =>
    rw [hobj, Object.next_announce hm hv hheap]
    exact announce_requestable hok hm hv hheap

theorem indexInv_step (h : IndexInv s) (hok : IndexOk a s) (hst : step a.1 a.2 s = some s') :
    IndexInv s' where
  object := by
    refine Object.indexed_change h.object ?_ (step_change hst)
    intro m hm hv hnone
    exact (noMemory_ok hok hm hv (Option.isNone_iff_eq_none.mp hnone)).1
  rx := rx_step h hok hst

/-- The accesses of one step. -/
theorem page_lt (h : IndexInv s) (hok : IndexOk a s) (hst : step a.1 a.2 s = some s') {i n : Nat}
    (hx : Effect.page i n ∈ s'.effects) : i < n := by
  have hcount : s.pageCount ≤ s.entries := h.object.count
  generalize hpage : Effect.page i n = x at hx
  cases step_emits hst hx with
  | shared hx =>
    cases hx with
    | scan hx => exact hx.lt hcount hpage.symm
    | answer hm ha =>
      cases hpage
      exact Nat.lt_of_lt_of_le ha.1 hcount
    | packet hm hp =>
      cases hpage
      exact Nat.lt_of_lt_of_le (hok.packet _ hm hp).1 hcount
    | profile hm hv hheap hx => exact hx.lt (Nat.le_refl _) hpage.symm
    | requested he hrx =>
      cases hpage
      exact (h.rx hrx).1
    | served he ht h0 htx =>
      cases hpage
      exact h.object.queued ⟨h0, htx⟩
    | store _ _ => cases hpage
    | request _ _ => cases hpage
    | serve _ _ _ _ _ => cases hpage
    | summary _ _ => cases hpage
    | profileSent _ _ => cases hpage
  | offer hm hv ha hc =>
    cases hpage
    have hlt : s.object.available < s.object.pageCount := Nat.lt_of_lt_of_le ha hc
    exact Nat.lt_of_le_of_lt (h.object.below.current_le hlt) (Nat.lt_of_lt_of_le hlt hcount)
  | announceScan hm hc hl hx => exact hx.lt hcount hpage.symm
  | announce _ _ _ => cases hpage

end Rx

end Adler.Deluge
