/-
  What a receiver sends when it is asked for a page. `handle_request` accepts a request for the
  first missing page too, and the packets are labelled with the version the page record has when
  `tx_timer` fires.

  * `Kept`, `Object.keep`: of each page, the version and the bytes the node stored last. It is a
    ghost: no code reads it.
  * `Rx.ServeOk`: no request for the first missing page is accepted, and page accesses to the file
    are whole.
  * `serves_stored`: in runs of such steps every packet sent is of a complete page, and has the bytes
    that were stored with the version it is labelled with.
-/
import Adler.Deluge.Commit
import Adler.Deluge.Effects

namespace Adler.Deluge

open Lib (Mem Reach observed)

/-- A page as it was stored. -/
structure Kept where
  version : Nat
  bytes : List UInt8

namespace Object

variable {env : Env} {e : Event} {pending : Bool} {o o' : Object} {g : Nat → Kept}

/-- The pages stored so far, once the event has happened in the state `o`. -/
def keep (e : Event) (o : Object) (g : Nat → Kept) : Nat → Kept :=
  match e.message with
  | some (.packet p) =>
    if o.Completes p then
      Function.update g p.pagenum ⟨p.version, Mem.read (o.bufferWith p) 0 sPage⟩
    else g
  | _ => g

theorem keep_completes {p : DelugeMsgPacket} (hm : e.message = some (.packet p))
    (hc : o.Completes p) :
    o.keep e g = Function.update g p.pagenum ⟨p.version, Mem.read (o.bufferWith p) 0 sPage⟩ := by
  simp only [keep, hm, if_pos hc]

theorem keep_of_not (h : ∀ p, e.message = some (.packet p) → ¬ o.Completes p) :
    o.keep e g = g := by
  unfold keep
  split
  · exact if_neg (h _ ‹_›)
  · rfl

/-- Page `i` of the file. -/
def filePage (o : Object) (i : Nat) : List UInt8 := Mem.read o.file.data (i * sPage) sPage

/-- The file holds what was stored with the version of each complete page, and a page queued for
    sending is complete. -/
structure ServeInv (o : Object) (g : Nat → Kept) : Prop where
  kept : ∀ i, i < o.pageCount → (o.marks i).complete = true →
    (o.marks i).version = (g i).version ∧ o.filePage i = (g i).bytes
  queued : o.Queued → o.currentTxPage.toNat < o.pageCount ∧
    (o.marks o.currentTxPage.toNat).complete = true

theorem serve_filePage (o : Object) (env : Env) (i : Nat) :
    (o.serve env).filePage i = o.filePage i := by
  unfold filePage
  rw [show (o.serve env).file.data = o.file.data from (readFile_file _ _ _ _).1]

/-- A request that is answered, and leaves packets to be sent, makes its page the one to be sent. -/
theorem queue_page (hcount : o.pageCount ≤ 255) {m : DelugeMsgRequest} (ha : o.Answers m)
    (hq : (o.queue m).Queued) : (o.queue m).currentTxPage.toNat = m.pagenum := by
  have hcur := hq.1
  simp only [Object.queue] at hcur ⊢
  split at hcur
  · rename_i hsame
    rw [if_pos hsame, ← hsame]
    rfl
  · rename_i hother
    rw [if_neg hother]
    unfold toInt8 at hcur ⊢
    have hlt : m.pagenum < o.pageCount := ha.1
    split at hcur <;> split <;> omega

theorem ServeInv.queue (h : o.ServeInv g) (hcount : o.pageCount ≤ 255) {m : DelugeMsgRequest}
    (ha : o.Answers m)
    (hcomplete : (o.marks m.pagenum).complete = true) : (o.queue m).ServeInv g where
  kept := h.kept
  queued := by
    intro hq
    rw [queue_page hcount ha hq]
    exact ⟨ha.1, hcomplete⟩

theorem collect_version (o : Object) (p : DelugeMsgPacket) (i : Nat) :
    ((o.collect p).marks i).version = (o.marks i).version := by
  by_cases hi : i = o.currentRxPage
  · subst hi; simp [collect]
  · simp [collect, hi]

theorem ServeInv.collect (h : o.ServeInv g) (p : DelugeMsgPacket) : (o.collect p).ServeInv g where
  kept := by
    intro i hi hc
    rw [collect_complete] at hc
    rw [collect_version]
    exact h.kept i hi hc
  queued := by
    intro hq
    rw [collect_complete]
    exact h.queued hq

/-- The page is stored under the version the node then holds. -/
theorem ServeInv.store (h : o.ServeInv g) (hfiles : env.FilesOk) {p : DelugeMsgPacket}
    (hc : o.Completes p) : (o.store env p).ServeInv
      (Function.update g p.pagenum ⟨p.version, Mem.read (o.bufferWith p) 0 sPage⟩) where
  kept := by
    intro i hi hcomplete
    have hpage : p.pagenum = o.currentRxPage := hc.1.1
    have hlen : (Mem.read (o.bufferWith p) 0 sPage).length = sPage := Mem.length_read _ _ _
    by_cases hcur : i = o.currentRxPage
    · rw [hcur, store_marks_self, hpage, Function.update_self]
      exact ⟨rfl, writeFile_read_self _ _ hfiles hlen⟩
    · rw [store_marks_ne env p hcur] at hcomplete ⊢
      rw [hpage, Function.update_of_ne hcur]
      obtain ⟨hversion, hbytes⟩ := h.kept i hi hcomplete
      exact ⟨hversion, (writeFile_read_ne _ _ hfiles hlen hcur).trans hbytes⟩
  queued := fun hq => ⟨(h.queued hq).1, store_complete env p (.inr (h.queued hq).2)⟩

theorem announcedMark_of_complete {m : DelugeMsgProfile} {block : Nat → Mark} {i : Nat}
    (hi : i < m.npages) (hc : (o.announcedMark m block i).complete = true) :
    i < o.pageCount ∧ o.announcedMark m block i = o.marks i := by
  unfold announcedMark at hc ⊢
  by_cases hcount : i < min m.npages o.pageCount
  · rw [if_pos hcount] at hc ⊢
    refine ⟨by omega, ?_⟩
    split at hc
    · cases hc
    · rename_i hv
      rw [if_neg hv]
  · rw [if_neg hcount, if_pos hi] at hc
    cases hc

theorem serveInv_change (h : o.ServeInv g) (hcount : o.pageCount ≤ 255)
    (hrequest : e.OnRequest fun m => o.Answers m → (o.marks m.pagenum).complete = true)
    (hprofile : e.OnProfile fun m => o.updateVersion < m.version → env.heap.isNone →
      m.npages ≤ o.pageCount)
    (hpacket : e.OnPacket fun p => o.Completes p → env.FilesOk)
    (ho : o' = o.next env e pending) : o'.ServeInv (o.keep e g) := by
  by_cases hcomp : ∃ p, e.message = some (.packet p) ∧ o.Completes p
  · obtain ⟨p, hm, hc⟩ := hcomp
    have hstore := h.store (hpacket p hm hc) hc
    rw [ho, next_completes hm hc, keep_completes hm hc]
    split
    · exact ⟨hstore.kept, hstore.queued⟩
    · exact hstore
  · have hnone : ∀ p, e.message = some (.packet p) → ¬ o.Completes p :=
      fun p hm hc => hcomp ⟨p, hm, hc⟩
    rw [keep_of_not hnone]
    have hchange := next_change env e pending o
    rw [← ho] at hchange
    cases hchange with
    | same => exact h
    | queue hm ha => exact h.queue hcount ha (hrequest _ hm ha)
    | spoil _ _ _ => exact ⟨h.kept, h.queued⟩
    | collect _ _ _ _ => exact h.collect _
    | store hm hc _ => exact absurd hc (hnone _ hm)
    | commit hm hc _ => exact absurd hc (hnone _ hm)
    | announce _ _ _ =>
      refine ⟨?_, fun hq => absurd rfl hq.2⟩
      intro i hi hc
      obtain ⟨hlt, hmark⟩ := announcedMark_of_complete hi hc
      change (o.announcedMark _ _ i).version = _ ∧ _
      rw [hmark]
      exact h.kept i hlt (hmark ▸ hc)
    | resize hm hv hheap =>
      refine ⟨fun i hi hc => h.kept i (Nat.lt_of_lt_of_le hi (hprofile _ hm hv ?_)) hc,
        fun hq => absurd rfl hq.2⟩
      rw [hheap]
      rfl
    | serve _ _ _ =>
      refine ⟨?_, fun hq => absurd rfl hq.2⟩
      intro i hi hc
      rw [serve_filePage]
      exact h.kept i hi hc

end Object

namespace Rx

/-- The steps after which only stored pages are sent: no payload leaves `current_page`; no request
    for a page that is not complete is accepted; a newer profile for which there is no memory
    announces no more pages than there are; and a page is written, or read to be sent, as a whole. -/
structure ServeOk (a : Env × Event) (s : Node) : Prop where
  inBuffer : s.object.InBuffer a.2
  request : a.2.OnRequest fun m =>
    s.object.Answers m → (s.object.marks m.pagenum).complete = true
  profile : a.2.OnProfile fun m =>
    s.updateVersion < m.version → a.1.heap.isNone → m.npages ≤ s.pageCount
  packet : a.2.OnPacket fun p => s.object.Completes p → a.1.FilesOk
  txTimer : a.2.isTxTimer = true → s.object.Queued →
    a.1.FilesOk ∧ (s.currentTxPage.toNat + 1) * sPage ≤ s.file.len

instance (a : Env × Event) (s : Node) : Decidable (ServeOk a s) :=
  decidable_of_iff (s.object.InBuffer a.2 ∧
      (a.2.OnRequest fun m => s.object.Answers m → (s.object.marks m.pagenum).complete = true) ∧
      (a.2.OnProfile fun m =>
        s.updateVersion < m.version → a.1.heap.isNone → m.npages ≤ s.pageCount) ∧
      (a.2.OnPacket fun p => s.object.Completes p → a.1.FilesOk) ∧
      (a.2.isTxTimer = true → s.object.Queued →
        a.1.FilesOk ∧ (s.currentTxPage.toNat + 1) * sPage ≤ s.file.len))
    ⟨fun h => ⟨h.1, h.2.1, h.2.2.1, h.2.2.2.1, h.2.2.2.2⟩, fun h => ⟨h.1, h.2, h.3, h.4, h.5⟩⟩

/-- `Object.keep` along a run. -/
def keepStep (a : Env × Event) (s _s' : Node) (g : Nat → Kept) : Nat → Kept := s.object.keep a.2 g

/-- The pages a node has stored when it starts: those of its file. -/
def keptAtBoot (f : File) (v i : Nat) : Kept := ⟨v % 256, Mem.read f.data (i * sPage) sPage⟩

/-- `pkt` is a packet of a complete page, labelled with the version and filled with the bytes the
    page was stored with. -/
structure Genuine (o : Object) (g : Nat → Kept) (pkt : DelugeMsgPacket) : Prop where
  pagenum : pkt.pagenum < o.pageCount
  packetnum : pkt.packetnum < nPkt
  complete : (o.marks pkt.pagenum).complete = true
  version : pkt.version = (g pkt.pagenum).version
  payload : pkt.payload = ((g pkt.pagenum).bytes.drop (sPkt * pkt.packetnum)).take sPkt

variable {f : File} {v : Nat} {a : Env × Event} {s s' : Node} {g : Nat → Kept}

/-- A packet of `send_page`. -/
theorem packetOf_genuine (h : s.object.ServeInv g) (hq : s.object.Queued) (hfiles : a.1.FilesOk)
    (hlen : (s.currentTxPage.toNat + 1) * sPage ≤ s.file.len) {k : Nat} (hk : k < nPkt) :
    Genuine s.object g (packetOf s s.currentTxPage.toNat (s.sendBuffer a.1) k) := by
  obtain ⟨hcount, hcomplete⟩ := h.queued hq
  have hkept := h.kept _ hcount hcomplete
  have hbytes : s.object.filePage s.currentTxPage.toNat = (g s.currentTxPage.toNat).bytes :=
    hkept.2
  refine ⟨hcount, hk, hcomplete, hkept.1, ?_⟩
  change Mem.read (s.sendBuffer a.1) (sPkt * k) sPkt =
    (List.drop (sPkt * k) (g s.currentTxPage.toNat).bytes).take sPkt
  have hfit : sPkt * k + sPkt ≤ sPage := by
    simp only [sPkt, nPkt, sPage] at hk ⊢
    omega
  rw [← hbytes, Object.filePage, Mem.slice_read _ _ _ _ _ hfit, Mem.read_eq_iff]
  intro i hi
  have hin : sPkt * k + i < sPage := by omega
  change (readFile a.1 s.currentTxPage.toNat a.1.stack s.file).2.1 (sPkt * k + i) = _
  rw [readFile_byte _ _ hfiles _ hin, Nat.add_assoc]
  · rfl
  · rw [Nat.succ_mul] at hlen
    omega

/-- The packets of one step. -/
theorem serve_step (h : s.object.ServeInv g) (hok : ServeOk a s) (hst : step a.1 a.2 s = some s')
    {bs : List UInt8} (hx : Effect.broadcast bs ∈ s'.effects)
    (hcmd : bs.head? = some (.ofNat delugeCmdPacket)) :
    ∃ pkt, bs = DelugeMsgPacket.bytes pkt ∧ Genuine s'.object (s.object.keep a.2 g) pkt := by
  have hobj := step_refines hst
  generalize hbroadcast : Effect.broadcast bs = x at hx
  cases step_emits hst hx with
  | shared hx =>
    cases hx with
    | serve he ht h0 hk hbit =>
      cases hbroadcast
      have htx : s.txSet ≠ 0 := by
        intro h
        rw [h] at hbit
        simp at hbit
      obtain ⟨hfiles, hlen⟩ := hok.txTimer (he ▸ rfl) ⟨h0, htx⟩
      obtain ⟨hpage, hnum, hcomplete, hversion, hpayload⟩ :=
        packetOf_genuine (a := a) h ⟨h0, htx⟩ hfiles hlen hk
      refine ⟨_, rfl, ?_, hnum, ?_, ?_, ?_⟩
      · rw [hobj, he]
        simp only [Object.next]
        split <;> exact hpage
      · rw [hobj, he]
        simp only [Object.next]
        split <;> exact hcomplete
      · rw [Object.keep_of_not (fun p hp => by rw [he] at hp; cases hp)]
        exact hversion
      · rw [Object.keep_of_not (fun p hp => by rw [he] at hp; cases hp)]
        exact hpayload
    | scan hx =>
      obtain ⟨i, _, rfl⟩ := hx
      cases hbroadcast
    | profile _ _ _ hx =>
      obtain ⟨i, _, rfl⟩ := hx
      cases hbroadcast
    | summary _ _ =>
      cases hbroadcast
      cases hcmd
    | profileSent _ _ =>
      cases hbroadcast
      cases hcmd
    | answer _ _ => cases hbroadcast
    | packet _ _ => cases hbroadcast
    | store _ _ => cases hbroadcast
    | requested _ _ => cases hbroadcast
    | request _ _ => cases hbroadcast
    | served _ _ _ _ => cases hbroadcast
  | offer _ _ _ _ => cases hbroadcast
  | announceScan _ _ _ hx =>
    obtain ⟨i, _, rfl⟩ := hx
    cases hbroadcast
  | announce _ _ _ =>
    cases hbroadcast
    cases hcmd

/-- The first packet of a page of zeros. -/
def zeroPacket (version : Nat) : DelugeMsgPacket :=
  ⟨version, 0, 0, 0, 0, List.replicate sPkt 0⟩

end Rx

end Adler.Deluge
