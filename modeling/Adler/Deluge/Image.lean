/-
  Dissemination of an image from the gateway to receivers that start at version 0.

  * `File.Holds`: bytes that agree with the image at a place of it, as far as the image goes.
  * `Seeding`, `Waiting`, `Fetching`: the gateway, and a receiver before and after it has accepted the
    gateway's profile. A receiver fetches the pages upwards; those below the current one are in its
    file, and the packets of the current one that have their bit set are in the buffer.
  * `Genuine`: what the frames on the air say. A packet holds bytes of the image, so that it makes no
    difference which node sent it.
  * `image_integrity`: a receiver that has the gateway's version has the gateway's image, for good, if
    the image is no longer than 65280 bytes; `image_integrity_wraps` is a longer one.
-/
import Adler.Deluge.Assembly
import Adler.Deluge.Posted
import Adler.Deluge.Serve

namespace Adler.Deluge

open Lib (Mem Protocol Reach Later Sent)

/-! ## Bytes of the image -/

/-- The bytes are those of the file from `off` on, up to its end. -/
def File.Holds (f : File) (off : Nat) (bytes : List UInt8) : Prop :=
  ∀ j, j < bytes.length → off + j < f.len → bytes.getD j 0 = f.data (off + j)

/-- A block of memory against the file, byte by byte. -/
theorem File.holds_read {f : File} {off : Nat} {m : Mem} {a l : Nat} :
    f.Holds off (Mem.read m a l) ↔
      ∀ j, j < l → off + j < f.len → m (a + j) = f.data (off + j) := by
  constructor
  · intro h j hj hlen
    rw [← Mem.getD_read m a l j hj]
    exact h j (by rwa [Mem.length_read]) hlen
  · intro h j hj hlen
    rw [Mem.length_read] at hj
    rw [Mem.getD_read m a l j hj]
    exact h j hj hlen

/-- A page is put together from its packets. -/
theorem File.Holds.of_slots {f : File} {off : Nat} {buf : Mem}
    (h : ∀ k, k < nPkt → f.Holds (off + sPkt * k) (Mem.read buf (sPkt * k) sPkt)) :
    f.Holds off (Mem.read buf 0 sPage) := by
  rw [File.holds_read]
  intro j hj hlen
  simp only [sPage, nPkt, sPkt] at hj h
  have hslot := File.holds_read.mp (h (j / 64) (by omega)) (j % 64) (Nat.mod_lt _ (by decide))
  have hj64 : 64 * (j / 64) + j % 64 = j := Nat.div_add_mod j 64
  rw [Nat.add_assoc, hj64] at hslot
  rw [Nat.zero_add]
  exact hslot hlen

section

variable {f : File} {env : Env} {s : Node}

/-- What `send_page` sends of a page that holds the image's bytes. -/
theorem holds_sendBuffer (hfiles : env.FilesOk) (hlen : f.len ≤ s.file.len)
    (hpage : f.Holds (s.currentTxPage.toNat * sPage) (s.object.filePage s.currentTxPage.toNat))
    {k : Nat} (hk : k < nPkt) :
    f.Holds (s.currentTxPage.toNat * sPage + sPkt * k)
      (Mem.read (s.sendBuffer env) (sPkt * k) sPkt) := by
  rw [File.holds_read]
  intro j hj hlt
  have hin : sPkt * k + j < sPage := by
    simp only [sPkt, sPage, nPkt] at hj hk ⊢
    omega
  rw [Nat.add_assoc] at hlt
  have hbyte := File.holds_read.mp hpage _ hin hlt
  rw [Nat.add_assoc, ← hbyte]
  exact readFile_byte _ _ hfiles _ hin (Nat.lt_of_lt_of_le hlt hlen)

end

namespace Object

variable {env : Env} {e : Event} {pending : Bool} {o o' : Object} {n : Nat}

/-- A node that has all pages it can hear packets of only answers requests. -/
theorem quiet_change (hc : Change env e pending o o')
    (hold : e.OnProfile fun m => m.version ≤ o.updateVersion)
    (hcomplete : ∀ i, i < n → (o.marks i).complete = true)
    (hpacket : e.OnPacket fun p => p.pagenum < n) :
    o' = o ∨ (∃ m, e.message = some (.request m) ∧ o.Answers m ∧ o' = o.queue m) ∨
      (o.Queued ∧ o' = o.serve env) := by
  have hno : ∀ p, e.message = some (.packet p) → ¬ o.Wants p := by
    intro p hm hw
    have hlt : p.pagenum < n := hpacket p hm
    rw [hw.1] at hlt
    exact Bool.false_ne_true (hw.2.2.symm.trans (hcomplete _ hlt))
  cases hc with
  | same => exact .inl rfl
  | queue hm ha => exact .inr (.inl ⟨_, hm, ha, rfl⟩)
  | spoil hm hw _ => exact absurd hw (hno _ hm)
  | collect hm hw _ _ => exact absurd hw (hno _ hm)
  | store hm hc _ => exact absurd hc.1 (hno _ hm)
  | commit hm hc _ => exact absurd hc.1 (hno _ hm)
  | announce hm hv _ => exact absurd hv (Nat.not_lt.mpr (hold _ hm))
  | resize hm hv _ => exact absurd hv (Nat.not_lt.mpr (hold _ hm))
  | serve _ _ hq => exact .inr (.inr ⟨hq, rfl⟩)

theorem serve_file (o : Object) (env : Env) :
    (o.serve env).file.data = o.file.data ∧ o.file.len ≤ (o.serve env).file.len :=
  readFile_file _ _ _ _

theorem serve_not_queued (o : Object) (env : Env) : ¬ (o.serve env).Queued := fun hq => hq.2 rfl

end Object

/-! ## What is on the air -/

/-- What a message says of the image `f` of `n` pages in version `v`. -/
def Genuine (f : File) (v n : Nat) : Message → Prop
  | .summary _ => True
  | .request m => m.version = v ∨ n ≤ m.pagenum
  | .packet p => p.version = v ∧ p.pagenum < n ∧ p.packetnum < nPkt ∧
      f.Holds (p.pagenum * sPage + sPkt * p.packetnum) p.payload
  | .profile m => m.Publishes v n

/-- A frame on the air is genuine. -/
def OnAirGenuine (f : File) (v n : Nat) (x : Sent RimeAddr Node Msg) : Prop :=
  ∀ stale msg, (Packetbuf.ofBytes x.msg.bytes stale).message = some msg → Genuine f v n msg

/-! ## The gateway -/

/-- The gateway's object: published, its file the image, and only its pages sent. -/
structure Seeding (f : File) (v n : Nat) (o : Object) : Prop extends Published v n o where
  data : o.file.data = f.data
  len : f.len ≤ o.file.len
  queued : o.Queued → o.currentTxPage.toNat < n

section

variable {f : File} {v n : Nat} {env : Env} {e : Event} {pending : Bool} {o o' : Object}

theorem Seeding.change (h : Seeding f v n o) (hcount : o.pageCount ≤ 255)
    (hheard : ∀ msg, e.message = some msg → Genuine f v n msg)
    (hc : Object.Change env e pending o o') : Seeding f v n o' := by
  have hprofile : e.OnProfile fun m => m.version = v := fun m hm => (hheard _ hm).version
  have hpublished := h.toPublished.change hc hprofile
  have hold : e.OnProfile fun m => m.version ≤ o.updateVersion := fun m hm =>
    Nat.le_of_eq ((hprofile m hm).trans h.updateVersion.symm)
  rcases Object.quiet_change hc hold h.complete (fun p hp => (hheard _ hp).2.1) with
    rfl | ⟨m, _, ha, rfl⟩ | ⟨_, rfl⟩
  · exact h
  · refine ⟨hpublished, h.data, h.len, ?_⟩
    intro hq
    rw [Object.queue_page hcount ha hq, ← h.pageCount]
    exact ha.1
  · obtain ⟨hdata, hlen⟩ := Object.serve_file o env
    exact ⟨hpublished, hdata.trans h.data, Nat.le_trans h.len hlen,
      fun hq => absurd hq (Object.serve_not_queued o env)⟩

/-- The pages of the gateway are the image's. -/
theorem Seeding.page (h : Seeding f v n o) (i : Nat) : f.Holds (i * sPage) (o.filePage i) := by
  rw [Object.filePage, File.holds_read]
  intro j _ _
  rw [h.data]

theorem Seeding.told {s s' : Node} (h : Seeding f v n s.object) (hv : v < 256)
    (hfiles : env.FilesOk) {msg : Message} (htold : Told env e s s' msg) : Genuine f v n msg := by
  have hcount : s.pageCount = n := h.pageCount
  have hle := pageCount_le s
  cases htold with
  | summary _ => exact trivial
  | request _ _ =>
    have hcur : s.object.currentRxPage < 256 := h.current
    have hmod : s.currentRxPage % 256 = s.currentRxPage := Nat.mod_eq_of_lt hcur
    rcases Nat.lt_or_ge s.currentRxPage n with hlt | hge
    · refine .inl ?_
      rw [h.versions _ hlt, Nat.mod_eq_of_lt hv]
    · refine .inr ?_
      rw [hmod]
      exact hge
  | packet _ hq hk =>
    have hpage : s.currentTxPage.toNat < n := h.queued hq
    have hmod : s.currentTxPage.toNat % 256 = s.currentTxPage.toNat := Nat.mod_eq_of_lt (by omega)
    rw [hmod, h.versions _ hpage, Nat.mod_eq_of_lt hv]
    exact ⟨rfl, hpage, hk, holds_sendBuffer hfiles h.len (h.page _) hk⟩
  | profile _ _ hok =>
    obtain ⟨hversion, hpages, hvector⟩ := profileOf_told (v := v) h.version hv
      (fun i hi => h.versions i (hcount ▸ hi)) hok
    rw [hcount] at hpages hvector
    exact ⟨hversion, hpages, hvector⟩

/-! ## The receivers -/

/-- The object of a receiver that has not accepted the gateway's profile. -/
structure Waiting (f : File) (n : Nat) (o : Object) : Prop where
  version : o.version = 0
  updateVersion : o.updateVersion = 0
  pageCount : o.pageCount = n
  complete : ∀ i, i < n → (o.marks i).complete = true
  versions : ∀ i, i < n → (o.marks i).version = 0
  len : f.len ≤ o.file.len
  txSet : o.txSet = 0

/-- The object of a receiver that has accepted it. -/
structure Fetching (f : File) (v n : Nat) (o : Object) : Prop where
  version : o.version = 0 ∨ (o.version = v ∧ o.currentRxPage = n)
  updateVersion : o.updateVersion = v
  pageCount : o.pageCount = n
  current : o.currentRxPage ≤ n
  complete : ∀ i, i < n → (o.marks i).complete = decide (i < o.currentRxPage)
  versions : ∀ i, i < n → (o.marks i).version = v
  untouched : ∀ i, i < n → o.currentRxPage < i → (o.marks i).packetSet = 0
  slots : o.currentRxPage < n → ∀ k, k < nPkt →
    (o.marks o.currentRxPage).packetSet.testBit k = true →
    f.Holds (o.currentRxPage * sPage + sPkt * k) (o.slot k)
  pages : ∀ i, i < o.currentRxPage → f.Holds (i * sPage) (o.filePage i)
  len : f.len ≤ o.file.len
  queued : o.Queued → o.currentTxPage.toNat < n ∧ o.currentRxPage = n

/-- What an idle receiver becomes when it accepts the gateway's profile. -/
theorem Waiting.announce (h : Waiting f n o) {m : DelugeMsgProfile} (hm : m.Publishes v n)
    (hv : 0 < v) (block : Nat → Mark) : Fetching f v n (o.announce m block) := by
  have hmark : ∀ i, i < n → o.announcedMark m block i = ⟨0, false, v⟩ := by
    intro i hi
    have hlt : i < min m.npages o.pageCount := by
      rw [hm.npages, h.pageCount]
      omega
    have hnew : m.versionVector i > (o.marks i).version := by
      rw [hm.vector hv i hi, h.versions i hi]
      exact hv
    rw [Object.announcedMark, if_pos hlt, if_pos hnew, hm.vector hv i hi]
  -- the first page is already missing
  have hcurrent : (o.announce m block).currentRxPage = 0 := by
    have hfirst : Lib.firstFailing (fun i => (o.announcedMark m block i).complete) m.npages = 0 :=
      Lib.firstFailing_eq (Nat.zero_le _) (fun i hi => absurd hi (Nat.not_lt_zero i)) fun hpos => by
        rw [hmark 0 (hm.npages ▸ hpos)]
    exact (congrArg (· % 256) hfirst).trans rfl
  have hmarks : ∀ i, i < n → (o.announce m block).marks i = ⟨0, false, v⟩ := hmark
  exact {
    version := .inl h.version
    updateVersion := hm.version
    pageCount := hm.npages
    current := hcurrent ▸ Nat.zero_le n
    complete := by
      intro i hi
      rw [hmarks i hi, hcurrent]
      simp
    versions := fun i hi => by rw [hmarks i hi]
    untouched := fun i hi _ => by rw [hmarks i hi]
    slots := by
      intro hlt k _ hbit
      rw [hmarks _ hlt, Nat.zero_testBit] at hbit
      cases hbit
    pages := by
      intro i hi
      rw [hcurrent] at hi
      exact absurd hi (Nat.not_lt_zero i)
    len := h.len
    queued := fun hq => absurd rfl hq.2 }

theorem Waiting.change (h : Waiting f n o) (hv : 0 < v)
    (hheard : ∀ msg, e.message = some msg → Genuine f v n msg)
    (hc : Object.Change env e pending o o') :
    Waiting f n o' ∨ ((∃ m block, e.message = some (.profile m) ∧ o.updateVersion < m.version ∧
      env.heap = some block) ∧ Fetching f v n o') := by
  by_cases hnew : ∃ m, e.message = some (.profile m) ∧ o.updateVersion < m.version
  · obtain ⟨m, hm, hversion⟩ := hnew
    have hpub : m.Publishes v n := hheard _ hm
    cases hc with
    | announce hm' hv' hheap =>
      cases hm.symm.trans hm'
      exact .inr ⟨⟨_, _, hm, hv', hheap⟩, h.announce hpub hv _⟩
    | resize hm' _ _ =>
      cases hm.symm.trans hm'
      exact .inl ⟨h.version, h.updateVersion, hpub.npages, h.complete, h.versions, h.len, rfl⟩
    | same => exact .inl h
    | queue hm' _ => cases hm.symm.trans hm'
    | spoil hm' _ _ => cases hm.symm.trans hm'
    | collect hm' _ _ _ => cases hm.symm.trans hm'
    | store hm' _ _ => cases hm.symm.trans hm'
    | commit hm' _ _ => cases hm.symm.trans hm'
    | serve _ _ hq => exact absurd h.txSet hq.2
  · have hold : e.OnProfile fun m => m.version ≤ o.updateVersion := fun m hm =>
      Nat.le_of_not_lt fun hv => hnew ⟨m, hm, hv⟩
    rcases Object.quiet_change hc hold h.complete (fun p hp => (hheard _ hp).2.1) with
      rfl | ⟨m, hm, ha, rfl⟩ | ⟨hq, _⟩
    · exact .inl h
    · -- requests are for the gateway's version, or for no page at all
      have hversion : m.version = 0 := ha.2.1.trans h.version
      have hlt : m.pagenum < n := h.pageCount ▸ ha.1
      rcases hheard _ hm with hrequest | hrequest
      · omega
      · omega
    · exact absurd h.txSet hq.2

/-- The slots of the buffer once a genuine packet is in. -/
theorem Fetching.holds_bufferWith (h : Fetching f v n o) {p : DelugeMsgPacket} (hw : o.Wants p)
    (hlen : p.payload.length = sPkt) (hlt : o.currentRxPage < n)
    (hp : f.Holds (p.pagenum * sPage + sPkt * p.packetnum) p.payload) {k : Nat} (hk : k < nPkt)
    (hbit : (o.setWith p).testBit k = true) :
    f.Holds (o.currentRxPage * sPage + sPkt * k) (Mem.read (o.bufferWith p) (sPkt * k) sPkt) := by
  rw [Object.slot_bufferWith o hlen]
  by_cases hnum : p.packetnum = k
  · rw [if_pos hnum, ← hnum, ← hw.1]
    exact hp
  · rw [Object.testBit_setWith, decide_eq_false hnum, Bool.or_false] at hbit
    rw [if_neg hnum]
    exact h.slots hlt k hk hbit

theorem Fetching.spoil (h : Fetching f v n o) {p : DelugeMsgPacket} (hw : o.Wants p)
    (hlen : p.payload.length = sPkt)
    (hp : f.Holds (p.pagenum * sPage + sPkt * p.packetnum) p.payload) :
    Fetching f v n (o.spoil p) :=
  { h with
    slots := fun hlt k hk hbit => h.holds_bufferWith hw hlen hlt hp hk (by
      rw [Object.testBit_setWith]
      exact Bool.or_eq_true_iff.mpr (.inl hbit)) }

theorem Fetching.collect (h : Fetching f v n o) {p : DelugeMsgPacket} (hw : o.Wants p)
    (hlen : p.payload.length = sPkt)
    (hp : f.Holds (p.pagenum * sPage + sPkt * p.packetnum) p.payload) :
    Fetching f v n (o.collect p) where
  version := h.version
  updateVersion := h.updateVersion
  pageCount := h.pageCount
  current := h.current
  complete := fun i hi => (Object.collect_complete o p i).trans (h.complete i hi)
  versions := fun i hi => (Object.collect_version o p i).trans (h.versions i hi)
  untouched := by
    intro i hi hlt
    have hne : i ≠ o.currentRxPage := Nat.ne_of_gt hlt
    have hmark : (o.collect p).marks i = o.marks i := Function.update_of_ne hne _ _
    rw [hmark]
    exact h.untouched i hi hlt
  slots := by
    intro hlt k hk hbit
    have hmark : (o.collect p).marks o.currentRxPage =
        { o.marks o.currentRxPage with packetSet := o.setWith p } := Function.update_self _ _ _
    change ((o.collect p).marks o.currentRxPage).packetSet.testBit k = true at hbit
    rw [hmark] at hbit
    exact h.holds_bufferWith hw hlen hlt hp hk hbit
  pages := h.pages
  len := h.len
  queued := h.queued

/-- The page that is stored is the image's. -/
theorem Fetching.store (h : Fetching f v n o) (hn : n ≤ 255) (hfiles : env.FilesOk)
    {p : DelugeMsgPacket} (hc : o.Completes p) (hlen : p.payload.length = sPkt)
    (hlt : o.currentRxPage < n) (hversion : p.version = v)
    (hp : f.Holds (p.pagenum * sPage + sPkt * p.packetnum) p.payload) :
    Fetching f v n (o.store env p) ∧ (o.store env p).currentRxPage = o.currentRxPage + 1 := by
  have hnext : (o.store env p).currentRxPage = o.currentRxPage + 1 :=
    Nat.mod_eq_of_lt (by omega)
  have hdata : (Mem.read (o.bufferWith p) 0 sPage).length = sPage := Mem.length_read _ _ _
  have hpage : f.Holds (o.currentRxPage * sPage) (Mem.read (o.bufferWith p) 0 sPage) :=
    File.Holds.of_slots fun k hk => h.holds_bufferWith hc.1 hlen hlt hp hk (by
      rw [hc.2.2]
      exact testBit_allPackets k hk)
  have hold : o.version = 0 := h.version.resolve_right fun hfull => by omega
  refine ⟨?_, hnext⟩
  exact {
    version := .inl hold
    updateVersion := h.updateVersion
    pageCount := h.pageCount
    current := by
      rw [hnext]
      exact hlt
    complete := by
      intro i hi
      rw [hnext]
      by_cases hcur : i = o.currentRxPage
      · rw [hcur, Object.store_marks_self]
        simp
      · have hiff : i < o.currentRxPage + 1 ↔ i < o.currentRxPage := by omega
        rw [Object.store_marks_ne env p hcur, h.complete i hi, decide_eq_decide.mpr hiff]
    versions := by
      intro i hi
      by_cases hcur : i = o.currentRxPage
      · rw [hcur, Object.store_marks_self]
        exact hversion
      · rw [Object.store_marks_ne env p hcur]
        exact h.versions i hi
    untouched := by
      intro i hi hgt
      have hgt : (o.store env p).currentRxPage < i := hgt
      change ((o.store env p).marks i).packetSet = 0
      rw [Object.store_marks_ne env p (by omega)]
      exact h.untouched i hi (by omega)
    slots := by
      intro hlt' k _ hbit
      -- nothing has been received for the next page
      have hlt' : (o.store env p).currentRxPage < n := hlt'
      change ((o.store env p).marks (o.store env p).currentRxPage).packetSet.testBit k = true
        at hbit
      rw [Object.store_marks_ne env p (by omega), h.untouched _ hlt' (by omega),
        Nat.zero_testBit] at hbit
      cases hbit
    pages := by
      intro i hi
      have hi : i < (o.store env p).currentRxPage := hi
      change f.Holds (i * sPage) ((o.store env p).filePage i)
      by_cases hcur : i = o.currentRxPage
      · have hself : (o.store env p).filePage i = Mem.read (o.bufferWith p) 0 sPage := by
          rw [hcur]
          exact writeFile_read_self _ _ hfiles hdata
        rw [hself, hcur]
        exact hpage
      · have hother : (o.store env p).filePage i = o.filePage i :=
          writeFile_read_ne _ _ hfiles hdata hcur
        rw [hother]
        exact h.pages i (by omega)
    len := Nat.le_trans h.len (writeFile_len _ _ _)
    queued := by
      intro hq
      have hfull := (h.queued hq).2
      omega }

theorem Fetching.commit (h : Fetching f v n o) (hfull : o.currentRxPage = n) :
    Fetching f v n o.commit :=
  { h with version := .inr ⟨h.updateVersion, hfull⟩ }

theorem Fetching.change (h : Fetching f v n o) (hv : 0 < v) (hn : n ≤ 255) (hfiles : env.FilesOk)
    (hheard : ∀ msg, e.message = some msg → Genuine f v n msg)
    (hc : Object.Change env e pending o o') : Fetching f v n o' := by
  have hlt : ∀ p, e.message = some (.packet p) → o.Wants p → o.currentRxPage < n :=
    fun p hm hw => hw.1 ▸ (hheard _ hm).2.1
  cases hc with
  | same => exact h
  | @queue m hm ha =>
    refine { h with queued := ?_ }
    intro hq
    have hcount : m.pagenum < n := h.pageCount ▸ ha.1
    rw [Object.queue_page (h.pageCount ▸ hn) ha hq]
    refine ⟨hcount, ?_⟩
    -- requests are for the version that the receiver has only when it has all pages
    rcases hheard _ hm with hrequest | hrequest
    · rcases h.version with hold | ⟨_, hfull⟩
      · have hversion : m.version = o.version := ha.2.1
        omega
      · exact hfull
    · omega
  | @spoil p hm hw _ => exact h.spoil hw (Event.length_payload hm) (hheard _ hm).2.2.2
  | @collect p hm hw _ _ => exact h.collect hw (Event.length_payload hm) (hheard _ hm).2.2.2
  | @store p hm hc _ =>
    exact (h.store hn hfiles hc (Event.length_payload hm) (hlt p hm hc.1) (hheard _ hm).1
      (hheard _ hm).2.2.2).1
  | @commit p hm hc hlast =>
    obtain ⟨hstore, hnext⟩ := h.store hn hfiles hc (Event.length_payload hm) (hlt p hm hc.1)
      (hheard _ hm).1 (hheard _ hm).2.2.2
    refine hstore.commit ?_
    have hlast : o.currentRxPage = (o.pageCount + 65535) % 65536 := hlast
    have hcount := h.pageCount
    have hcur := hlt p hm hc.1
    omega
  | announce hm hv _ =>
    exact absurd hv (Nat.not_lt.mpr (Nat.le_of_eq ((hheard _ hm).version.trans
      h.updateVersion.symm)))
  | resize hm hv _ =>
    exact absurd hv (Nat.not_lt.mpr (Nat.le_of_eq ((hheard _ hm).version.trans
      h.updateVersion.symm)))
  | serve _ _ _ =>
    obtain ⟨hdata, hlen⟩ := Object.serve_file o env
    refine { h with
      pages := ?_
      len := Nat.le_trans h.len hlen
      queued := fun hq => absurd hq (Object.serve_not_queued o env) }
    intro i hi
    rw [Object.serve_filePage]
    exact h.pages i hi

end

/-- A receiver of the network. -/
structure Client (f : File) (v n : Nat) (s : Node) : Prop where
  profileTimer : s.profileTimer = false
  phase : (Waiting f n s.object ∧ s.rxTimer = false) ∨ Fetching f v n s.object

section

variable {f : File} {v n : Nat} {env : Env} {e : Event} {s s' : Node}

/-- Nothing arms the `rx_timer` of a receiver that has all pages it knows of, but a profile. -/
theorem Waiting.rxTimer (h : Waiting f n s.object) (hoff : s.rxTimer = false)
    (hst : Rx.step env e s = some s')
    (hheard : ∀ msg, e.message = some msg → Genuine f v n msg)
    (hno : ¬ ∃ m block, e.message = some (.profile m) ∧ s.updateVersion < m.version ∧
      env.heap = some block) : s'.rxTimer = false := by
  by_contra hset
  cases (Rx.step_timers hst).rx (Bool.of_not_eq_false hset) with
  | kept hset _ => exact Bool.false_ne_true (hoff.symm.trans hset)
  | stored hm hc _ _ =>
    have hlt := (hheard _ hm).2.1
    rw [hc.1.1] at hlt
    exact Bool.false_ne_true (hc.1.2.2.symm.trans (h.complete _ hlt))
  | offered hm _ hmore hle =>
    have hall : s.object.available = s.object.pageCount := Object.available_eq_iff.mpr
      fun i hi => h.complete i (h.pageCount ▸ hi)
    have hcount : s.object.pageCount = s.pageCount := rfl
    omega
  | accepted hm hv hheap => exact hno ⟨_, _, hm, hv, hheap⟩

theorem Client.step (h : Client f v n s) (hv : 0 < v) (hn : n ≤ 255) (hfiles : env.FilesOk)
    (hheard : ∀ msg, e.message = some msg → Genuine f v n msg)
    (hst : Rx.step env e s = some s') : Client f v n s' := by
  have hchange := Rx.step_change hst
  refine ⟨?_, ?_⟩
  · by_contra hset
    exact Bool.false_ne_true (h.profileTimer.symm.trans
      ((Rx.step_timers hst).profile (Bool.of_not_eq_false hset)))
  · rcases h.phase with ⟨hwaiting, hoff⟩ | hfetching
    · by_cases hnew : ∃ m block, e.message = some (.profile m) ∧ s.updateVersion < m.version ∧
          env.heap = some block
      · rcases hwaiting.change hv hheard hchange with hwaiting' | ⟨_, hfetching⟩
        · -- the profile has raised `update_version`
          obtain ⟨m, block, hm, hnewer, hheap⟩ := hnew
          have hobj := Rx.step_refines hst
          rw [Object.next_announce hm hnewer hheap] at hobj
          have hupdate : s'.object.updateVersion = m.version := congrArg Object.updateVersion hobj
          have hzero := hwaiting'.updateVersion
          omega
        · exact .inr hfetching
      · rcases hwaiting.change hv hheard hchange with hwaiting' | ⟨haccepted, _⟩
        · exact .inl ⟨hwaiting', hwaiting.rxTimer hoff hst hheard hnew⟩
        · exact absurd haccepted hnew
    · exact .inr (hfetching.change hv hn hfiles hheard hchange)

theorem Client.told (h : Client f v n s) (hv : v < 256) (hn : n ≤ 255) (hfiles : env.FilesOk)
    {msg : Message} (htold : Told env e s s' msg) : Genuine f v n msg := by
  cases htold with
  | summary _ => exact trivial
  | request _ hset =>
    rcases h.phase with ⟨_, hoff⟩ | hfetching
    · exact (Bool.false_ne_true (hoff.symm.trans hset)).elim
    · have hcurrent : s.currentRxPage ≤ n := hfetching.current
      rcases Nat.lt_or_eq_of_le hcurrent with hlt | heq
      · refine .inl ?_
        rw [hfetching.versions _ hlt, Nat.mod_eq_of_lt hv]
      · refine .inr ?_
        show n ≤ s.currentRxPage % 256
        omega
  | packet _ hq hk =>
    rcases h.phase with ⟨hwaiting, _⟩ | hfetching
    · exact absurd hwaiting.txSet hq.2
    · obtain ⟨hpage, hfull⟩ := hfetching.queued hq
      have hpage : s.currentTxPage.toNat < n := hpage
      have hmod : s.currentTxPage.toNat % 256 = s.currentTxPage.toNat :=
        Nat.mod_eq_of_lt (by omega)
      rw [hmod, hfetching.versions _ hpage, Nat.mod_eq_of_lt hv]
      exact ⟨rfl, hpage, hk, holds_sendBuffer hfiles hfetching.len
        (hfetching.pages _ (hfull ▸ hpage)) hk⟩
  | profile _ hset _ => exact (Bool.false_ne_true (h.profileTimer.symm.trans hset)).elim

end

/-! ## The network -/

/-- `OBJECT_PAGE_COUNT` of the object of a file. -/
def pagesOf (f : File) : Nat := (f.len % 65536 + 255) % 65536 / sPage

/-- The file operations of a start succeed. -/
def InitEnv.FilesOk (e : InitEnv) : Prop :=
  e.opened.isSome = true ∧ e.reopened.isSome = true ∧ e.env.FilesOk

/-- The gateway `g` starts with the image `f` at version `v`, every other node as a receiver at
    version 0 with a file of the same size. -/
def Spreads (g : RimeAddr) (f : File) (v : Nat) (i : RimeAddr) (s : Node) : Prop :=
  ∃ e : InitEnv, e.FilesOk ∧
    if i = g then delugeDisseminate Tx.start e f v Node.zero = (0, s)
    else ∃ f' : File, f'.len = f.len ∧ delugeDisseminate Rx.start e f' 0 Node.zero = (0, s)

/-- The steps in which file operations succeed. -/
def NetFilesOk (ia : RimeAddr × NetEvent) (_ : Protocol.Net RimeAddr Node Msg) : Prop :=
  ia.2.event.1.FilesOk

instance (ia : RimeAddr × NetEvent) (n : Protocol.Net RimeAddr Node Msg) :
    Decidable (NetFilesOk ia n) := inferInstanceAs (Decidable (Env.FilesOk _))

/-- The invariant of the node with address `i`. -/
def ImageParty (g : RimeAddr) (f : File) (v n : Nat) (i : RimeAddr) (s : Node) : Prop :=
  if i = g then Seeding f v n s.object else Client f v n s

section

variable {g i : RimeAddr} {f : File} {v : Nat} {s s' : Node} {a : NetEvent}
  {init : RimeAddr → Node → Prop}

theorem pageCount_init {e : InitEnv} {f' : File} {w : Nat} {t : Node} (he : e.FilesOk)
    (hlen : f'.len = f.len) (ht : initObject e f' w Node.zero = (0, t)) :
    t.pageCount = pagesOf f := by
  have hsize := (initObject_fresh ht).2.2
  rw [he.2.1, if_pos rfl, hlen] at hsize
  rw [Node.pageCount, hsize, pagesOf]

theorem imageParty_init (h : Spreads g f v i s) :
    ImageParty g f (v % 256) (pagesOf f) i s := by
  obtain ⟨e, he, hs⟩ := h
  unfold ImageParty
  split at hs
  · rename_i hi
    obtain ⟨t, ht, rfl⟩ := delugeDisseminate_init hs
    have hfresh := (initObject_fresh ht).1
    rw [if_pos hi]
    exact {
      toPublished := hfresh.published (pageCount_init he rfl ht)
      data := hfresh.data
      len := hfresh.len
      queued := fun hq => absurd hfresh.txSet hq.2 }
  · rename_i hi
    obtain ⟨f', hlen, hs⟩ := hs
    have hboot : Rx.Booted f' 0 s := ⟨e, hs⟩
    have hfresh := hboot.fresh
    have hcount : s.pageCount = pagesOf f := by
      obtain ⟨t, ht, rfl⟩ := delugeDisseminate_init hs
      have hcount : t.pageCount = pagesOf f := pageCount_init he hlen ht
      exact hcount
    rw [if_neg hi]
    refine ⟨hboot.profileTimer, .inl ⟨?_, hfresh.rxTimer⟩⟩
    have hpub := hfresh.published hcount
    exact {
      version := hpub.version
      updateVersion := hpub.updateVersion
      pageCount := hcount
      complete := hpub.complete
      versions := hpub.versions
      len := hlen ▸ hfresh.len
      txSet := hfresh.txSet }

theorem pagesOf_le (f : File) : pagesOf f ≤ 255 := by
  unfold pagesOf
  simp only [sPage]
  omega

/-- What hears only genuine frames makes a defined step. -/
theorem genuine_step {n : Nat}
    (hin : ∀ m, a.input = some m → ∃ x, OnAirGenuine f v n x ∧ x.msg = m)
    (hst : (network g init).step i a s s') :
    (∀ msg, a.event.2.message = some msg → Genuine f v n msg) ∧
      nodeStep g i a.event.1 a.event.2 s = some s' := by
  obtain ⟨hat, hst⟩ := hst
  have hheard : ∀ msg, a.event.2.message = some msg → Genuine f v n msg := fun msg hm =>
    have ⟨_, stale, hx, hmsg⟩ := NetEvent.heard hin hat hm
    hx stale msg hmsg
  have hpacket : s.object.InBuffer a.event.2 := fun p hp _ => (hheard _ hp).2.2.1
  obtain ⟨t, ht⟩ : ∃ t, nodeStep g i a.event.1 a.event.2 s = some t := nodeStep_isSome hpacket
  exact ⟨hheard, ht.trans (congrArg some (hst t ht).symm)⟩

/-- One event of one node. -/
theorem imageParty_step {n : Nat} (hv : 0 < v) (hv' : v < 256) (hn : n ≤ 255)
    (h : ImageParty g f v n i s) (hfiles : a.event.1.FilesOk)
    (hin : ∀ m, a.input = some m → ∃ x, OnAirGenuine f v n x ∧ x.msg = m)
    (hst : (network g init).step i a s s') :
    ImageParty g f v n i s' ∧
      ∀ m ∈ (network g init).sent i s', OnAirGenuine f v n ⟨i, s', m⟩ := by
  obtain ⟨hheard, ht⟩ := genuine_step hin hst
  have hchange := nodeStep_change ht
  unfold ImageParty at h ⊢
  unfold nodeStep at ht
  split at h
  · rename_i hi
    rw [if_pos hi] at ht ⊢
    exact ⟨h.change (pageCount_le s) hheard hchange, fun m hm stale msg hmsg =>
      h.told hv' hfiles (Tx.step_told ht hm hmsg)⟩
  · rename_i hi
    rw [if_neg hi] at ht ⊢
    exact ⟨h.step hv hn hfiles hheard ht, fun m hm stale msg hmsg =>
      h.told hv' hn hfiles (Rx.step_told ht hm hmsg)⟩

theorem image_inv (hv : 0 < v % 256) {N : Protocol.Net RimeAddr Node Msg}
    (h : Reach (network g (Spreads g f v)).Init (network g (Spreads g f v)).Step NetFilesOk N) :
    Protocol.Inv (ImageParty g f (v % 256) (pagesOf f)) (OnAirGenuine f (v % 256) (pagesOf f)) N := by
  have hstep : ∀ i (a : NetEvent) s s', ImageParty g f (v % 256) (pagesOf f) i s →
      a.event.1.FilesOk →
      (∀ m, a.input = some m → ∃ x, OnAirGenuine f (v % 256) (pagesOf f) x ∧ x.msg = m) →
      (network g (Spreads g f v)).step i a s s' →
      ImageParty g f (v % 256) (pagesOf f) i s' ∧
        ∀ m ∈ (network g (Spreads g f v)).sent i s',
          OnAirGenuine f (v % 256) (pagesOf f) ⟨i, s', m⟩ :=
    fun _ _ _ _ h hok hin hst =>
      imageParty_step hv (Nat.mod_lt _ (by decide)) (pagesOf_le f) h hok hin hst
  refine Protocol.inv_of_reach (fun _ _ hs => imageParty_init hs) ?_ hstep h
  exact fun _ _ _ hok => hok

/-- The node's file has the bytes of the image. -/
def HasImage (f : File) (s : Node) : Prop := ∀ b, b < f.len → s.file.data b = f.data b

/-- Up to 65280 bytes, the pages of the object hold every byte of the file. -/
theorem page_lt_pagesOf (hlen : f.len ≤ 65280) {b : Nat} (hb : b < f.len) :
    b / sPage < pagesOf f := by
  unfold pagesOf
  simp only [sPage]
  omega

/-- A receiver that has committed is in the update it has heard of. -/
theorem Client.updateVersion_eq {n : Nat} (h : Client f v n s) (hv : 0 < v)
    (hversion : s.version = v) : s.updateVersion = v := by
  rcases h.phase with ⟨hwaiting, _⟩ | hfetching
  · have hzero : s.version = 0 := hwaiting.version
    omega
  · exact hfetching.updateVersion

/-- A receiver that has committed has the image. -/
theorem Client.hasImage (h : Client f v (pagesOf f) s) (hlen : f.len ≤ 65280) (hv : 0 < v)
    (hversion : s.version = v) : HasImage f s := by
  rcases h.phase with ⟨hwaiting, _⟩ | hfetching
  · have hzero : s.version = 0 := hwaiting.version
    omega
  · intro b hb
    have hpage := page_lt_pagesOf hlen hb
    rcases hfetching.version with hold | ⟨_, hfull⟩
    · have hold : s.version = 0 := hold
      omega
    · have hdiv : b / sPage * sPage + b % sPage = b := Nat.div_add_mod' b sPage
      have hbyte := File.holds_read.mp (hfetching.pages (b / sPage) (by omega)) (b % sPage)
        (Nat.mod_lt _ (by decide)) (by omega)
      rw [hdiv] at hbyte
      exact hbyte

/-- A receiver that has the gateway's version keeps it. -/
theorem version_kept {n : Nat} (hv : 0 < v)
    {N N' : Protocol.Net RimeAddr Node Msg}
    (hinv : Protocol.Inv (ImageParty g f v n) (OnAirGenuine f v n) N)
    {ja : RimeAddr × NetEvent} (hst : (network g init).Step ja N N') (hi : i ≠ g)
    (hversion : (N.node i).version = v) : (N'.node i).version = v := by
  obtain ⟨j, a⟩ := ja
  obtain ⟨s', hlocal, hin, rfl⟩ := hst
  by_cases hij : i = j
  · subst hij
    have hclient : Client f v n (N.node i) := by
      have hparty := hinv.node i
      unfold ImageParty at hparty
      rwa [if_neg hi] at hparty
    have hchange := nodeStep_change (genuine_step (hinv.consumed hin) hlocal).2
    have hupdate : (N.node i).updateVersion = v := hclient.updateVersion_eq hv hversion
    have hnew : s'.version = v := by
      rcases Object.version_change hchange with hsame | hraised
      · exact hsame.trans hversion
      · exact hraised.trans hupdate
    simpa only [Function.update_self] using hnew
  · simpa only [Function.update_of_ne hij] using hversion

/-- **Image integrity.** When file operations succeed and the image is no longer than 65280 bytes, the
    gateway always has it, a receiver that has the gateway's version has it too, and both stay so. -/
theorem image_integrity (hlen : f.len ≤ 65280) (hv : 0 < v % 256)
    {N : Protocol.Net RimeAddr Node Msg}
    (h : Reach (network g (Spreads g f v)).Init (network g (Spreads g f v)).Step NetFilesOk N) :
    HasImage f (N.node g) ∧ ∀ i, i ≠ g → (N.node i).version = v % 256 →
      HasImage f (N.node i) ∧
        ∀ N', Later (network g (Spreads g f v)).Step NetFilesOk N N' →
          (N'.node i).version = v % 256 ∧ HasImage f (N'.node i) ∧ HasImage f (N'.node g) := by
  have hgateway : ∀ N, Reach (network g (Spreads g f v)).Init (network g (Spreads g f v)).Step
      NetFilesOk N → HasImage f (N.node g) := by
    intro N h b _
    have hparty := (image_inv hv h).node g
    unfold ImageParty at hparty
    rw [if_pos rfl] at hparty
    have hdata : (N.node g).file.data = f.data := hparty.data
    rw [hdata]
  have hreceiver : ∀ N, Reach (network g (Spreads g f v)).Init (network g (Spreads g f v)).Step
      NetFilesOk N → ∀ i, i ≠ g → (N.node i).version = v % 256 → HasImage f (N.node i) :=
    fun N h i hi hversion => by
      have hparty := (image_inv hv h).node i
      unfold ImageParty at hparty
      rw [if_neg hi] at hparty
      exact hparty.hasImage hlen hv hversion
  refine ⟨hgateway N h, fun i hi hversion => ⟨hreceiver N h i hi hversion, ?_⟩⟩
  intro N' hl
  have hlater : Reach (network g (Spreads g f v)).Init (network g (Spreads g f v)).Step
      NetFilesOk N' ∧ (N'.node i).version = v % 256 := by
    refine hl.invariant (I := fun N => Reach (network g (Spreads g f v)).Init
      (network g (Spreads g f v)).Step NetFilesOk N ∧ (N.node i).version = v % 256)
      (fun ia N N' hN hok hst => ⟨.step hN.1 hok hst, ?_⟩) ⟨h, hversion⟩
    exact version_kept hv (image_inv hv hN.1) hst hi hN.2
  exact ⟨hlater.2, hreceiver N' hlater.1 i hi hlater.2, hgateway N' hlater.1⟩

end

theorem spreads_onePageNet (i : RimeAddr) : Spreads 1 sampleImage 1 i (onePageNet i) := by
  refine ⟨quietInit, ⟨rfl, rfl, by decide⟩, ?_⟩
  unfold onePageNet
  split
  · exact Prod.ext rfl rfl
  · exact ⟨zeroFile sPage, rfl, Prod.ext rfl rfl⟩

/-- Receiver 2 is updated: its file was a page of zeros. -/
theorem image_integrity_run :
    ∃ N : Protocol.Net RimeAddr Node Msg, (N.node 2).version = 1 ∧
      HasImage sampleImage (N.node 2) := by
  obtain ⟨N, hN, hp⟩ := exists_of_net_run (g := 1) spreads_onePageNet NetFilesOk updateRun
    (fun N => decide ((N.node 2).version = 1)) (by decide +kernel)
  have hversion := of_decide_eq_true hp
  exact ⟨N, hversion, ((image_integrity (by decide) (by decide) hN).2 2 (by decide) hversion).1⟩

/-! ## An image whose length does not fit 16 bits -/

/-- Its `size` is 256, so that only its first page is disseminated. -/
def longImage : File := ⟨fun i => if i = 0 then 7 else if i = 300 then 9 else 0, 65792⟩

def longNet (i : RimeAddr) : Node :=
  if i = 1 then (delugeDisseminate Tx.start quietInit longImage 1 Node.zero).2
  else Rx.boot 65792 0

theorem spreads_longNet (i : RimeAddr) : Spreads 1 longImage 1 i (longNet i) := by
  refine ⟨quietInit, ⟨rfl, rfl, by decide⟩, ?_⟩
  unfold longNet
  split
  · exact Prod.ext rfl rfl
  · exact ⟨zeroFile 65792, rfl, Prod.ext rfl rfl⟩

/-- Receiver 2 has the gateway's version once it has the first page, but not the byte at 300. -/
theorem image_integrity_wraps :
    ∃ N, Reach (network 1 (Spreads 1 longImage 1)).Init (network 1 (Spreads 1 longImage 1)).Step
        NetFilesOk N ∧ (N.node 2).version = 1 ∧ ¬ HasImage longImage (N.node 2) := by
  obtain ⟨N, hN, hp⟩ := exists_of_net_run (g := 1) spreads_longNet NetFilesOk updateRun
    (fun N => decide ((N.node 2).version = 1 ∧ (N.node 2).file.data 300 ≠ longImage.data 300))
    (by decide +kernel)
  obtain ⟨hversion, hbyte⟩ := of_decide_eq_true hp
  exact ⟨N, hN, hversion, fun h => hbyte (h 300 (by decide))⟩

end Adler.Deluge
