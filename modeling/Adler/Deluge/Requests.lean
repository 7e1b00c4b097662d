/-
  What `send_request` asks for. `handle_profile` sets the version of a page the node had before, but
  `init_page` gives 0 to a page that is added, and `current_rx_page` only counts up.

  * `Asked`: of each page, the version announced for it and the packets taken in since. It is a
    ghost: no code reads it.
  * `AsksRight`: the profiles after which the missing pages are a block that ends with the last page,
    each with its announced version.
  * `requests_missing`: in runs whose newer profiles are of this kind, every request of an unfinished
    update is for the lowest missing page, for the packets of it not taken in, at its announced
    version.
-/
import Adler.Deluge.Assembly
import Adler.Deluge.Network

namespace Adler.Deluge

open Lib (Mem Reach observed firstFailing)

/-- The versions announced by the profile accepted last, and of each page the packets taken in since
    its packet set was cleared. -/
structure Asked where
  announced : Nat → Nat
  taken : Nat → List Nat

/-- Before any profile. -/
def Asked.start : Asked := ⟨fun _ => 0, fun _ => []⟩

/-- Packet `k` of page `i` is taken in. -/
def Asked.add (i k : Nat) (g : Asked) : Asked :=
  { g with taken := Function.update g.taken i (k :: g.taken i) }

/-- The profile is accepted in the state `o`. -/
def Asked.renew (m : DelugeMsgProfile) (o : Object) (g : Asked) : Asked :=
  ⟨m.versionVector, fun i => if m.Clears o i then [] else g.taken i⟩

namespace DelugeMsgProfile

/-- Accepted in the state `o`, the profile leaves a block of pages missing that ends with the last
    one. None of them is held in a version above the announced one, and a page that is added has
    version 0, which is what `init_page` gives it. -/
def AsksRight (m : DelugeMsgProfile) (o : Object) : Prop :=
  0 < m.npages ∧ m.LeavesMissing o (m.npages - 1) ∧ ∀ i < m.npages, m.LeavesMissing o i →
    (∀ j < m.npages, i ≤ j → m.LeavesMissing o j) ∧
      if i < o.pageCount then (o.marks i).version ≤ m.versionVector i else m.versionVector i = 0

instance (m : DelugeMsgProfile) (o : Object) : Decidable (m.AsksRight o) :=
  inferInstanceAs (Decidable (_ ∧ _ ∧ ∀ i < m.npages, _ → _))

end DelugeMsgProfile

namespace Object

variable {env : Env} {e : Event} {pending : Bool} {o : Object} {g : Asked} {p : DelugeMsgPacket}
  {m : DelugeMsgProfile}

/-- What is known of the pages once the event has happened in the state `o`. -/
def ask (env : Env) (e : Event) (o : Object) (g : Asked) : Asked :=
  match e.message with
  | some (.packet p) =>
    if o.Wants p ∧ p.CrcOk then g.add p.pagenum p.packetnum else g
  | some (.profile m) =>
    if o.updateVersion < m.version ∧ env.heap.isSome then g.renew m o else g
  | _ => g

/-- Page `i` is missing in the version announced for it, and its set holds what was taken in. -/
def Pending (o : Object) (g : Asked) (i : Nat) : Prop :=
  (o.marks i).complete = false ∧ (o.marks i).version = g.announced i ∧
    ∀ k, (o.marks i).packetSet.testBit k = true ↔ k ∈ g.taken i

/-- A finished update leaves no page missing; in an unfinished one the pages from the current one on
    are pending. -/
structure AskInv (o : Object) (g : Asked) : Prop where
  below : o.Below
  le : o.version ≤ o.updateVersion
  byte : ∀ i, g.announced i < 256
  finished : o.version = o.updateVersion → o.AllComplete
  current : o.version ≠ o.updateVersion → o.currentRxPage < o.pageCount
  pending : o.version ≠ o.updateVersion →
    ∀ i, o.currentRxPage ≤ i → i < o.pageCount → o.Pending g i

/-- The first missing page of an unfinished update is the current one. -/
theorem AskInv.available (h : o.AskInv g) (hopen : o.version ≠ o.updateVersion) :
    o.available = o.currentRxPage := by
  have hlt := h.current hopen
  refine Lib.firstFailing_eq (Nat.le_of_lt hlt) h.below ?_
  intro _
  exact (h.pending hopen _ (Nat.le_refl _) hlt).1

/-! ## A packet -/

theorem ask_packet (hm : e.message = some (.packet p)) (hw : o.Wants p) (hcrc : p.CrcOk) :
    o.ask env e g = g.add o.currentRxPage p.packetnum := by
  simp only [ask, hm]
  rw [if_pos ⟨hw, hcrc⟩, hw.1]

theorem ask_packet_not (hm : e.message = some (.packet p)) (h : ¬ (o.Wants p ∧ p.CrcOk)) :
    o.ask env e g = g := by
  simp only [ask, hm]
  exact if_neg h

/-- A packet changes what is known of its own page only. -/
theorem Pending.of_ne {o' : Object} {g' : Asked} {i : Nat} (h : o.Pending g i)
    (hmark : o'.marks i = o.marks i) (hann : g'.announced i = g.announced i)
    (htaken : g'.taken i = g.taken i) : o'.Pending g' i := by
  unfold Pending
  rw [hmark, hann, htaken]
  exact h

theorem Pending.collect (h : o.Pending g o.currentRxPage) :
    (o.collect p).Pending (g.add o.currentRxPage p.packetnum) o.currentRxPage := by
  obtain ⟨hc, hv, hbits⟩ := h
  refine ⟨(collect_complete o p _).trans hc, ?_, ?_⟩
  · simpa [Object.collect, Asked.add] using hv
  · intro k
    have hset : ((o.collect p).marks o.currentRxPage).packetSet = o.setWith p := by
      simp [Object.collect]
    rw [hset, testBit_setWith, Bool.or_eq_true, hbits k, decide_eq_true_iff]
    simp only [Asked.add, Function.update_self, List.mem_cons]
    rw [or_comm, eq_comm]

theorem AskInv.collect (h : o.AskInv g) (hm : e.message = some (.packet p)) (hw : o.Wants p)
    (hcrc : p.CrcOk) : (o.collect p).AskInv (o.ask env e g) := by
  rw [ask_packet hm hw hcrc]
  refine ⟨fun i hi => (collect_complete o p i).trans (h.below i hi), h.le, h.byte, ?_, h.current, ?_⟩
  · intro hv i hi
    exact (collect_complete o p i).trans (h.finished hv i hi)
  · intro hopen i hle hi
    have hpending := h.pending hopen i hle hi
    by_cases hcur : i = o.currentRxPage
    · rw [hcur] at hpending ⊢
      exact hpending.collect
    · exact hpending.of_ne (Function.update_of_ne hcur _ _) rfl (Function.update_of_ne hcur _ _)

/-- A page that is not the last one is stored: the current page moves on to the next. -/
theorem AskInv.store (h : o.AskInv g) (hcount : o.pageCount ≤ 255)
    (hm : e.message = some (.packet p)) (hc : o.Completes p) (hlast : ¬ o.AtLast) :
    (o.store env p).AskInv (o.ask env e g) := by
  rw [ask_packet hm hc.1 hc.2.1]
  -- in an unfinished update the current page is one of the object's, and not the last
  have hnext : o.version ≠ o.updateVersion →
      (o.store env p).currentRxPage = o.currentRxPage + 1 ∧ o.currentRxPage + 1 < o.pageCount := by
    intro hopen
    have hlt := h.current hopen
    have hne : o.currentRxPage ≠ (o.pageCount + 65535) % 65536 := hlast
    exact ⟨Nat.mod_eq_of_lt (by omega), by omega⟩
  refine ⟨below_store env p h.below, h.le, h.byte, ?_, ?_, ?_⟩
  · intro hv i hi
    exact store_complete env p (.inr (h.finished hv i hi))
  · intro hopen
    obtain ⟨hcur, hlt⟩ := hnext hopen
    rw [hcur]
    exact hlt
  · intro hopen i hle hi
    obtain ⟨hcur, _⟩ := hnext hopen
    have hne : i ≠ o.currentRxPage := by omega
    exact (h.pending hopen i (by omega) hi).of_ne (store_marks_ne env p hne) rfl
      (Function.update_of_ne hne _ _)

/-- The last page is stored and the update is finished. -/
theorem AskInv.commit (h : o.AskInv g) (hcount : o.pageCount ≤ 255)
    (hm : e.message = some (.packet p)) (hc : o.Completes p) (hlast : o.AtLast) :
    (o.store env p).commit.AskInv (o.ask env e g) := by
  rw [ask_packet hm hc.1 hc.2.1]
  refine ⟨below_store env p h.below, Nat.le_refl _, h.byte, ?_, ?_, ?_⟩
  · exact fun _ => allComplete_store env p hcount h.below hlast
  · exact fun hopen => absurd rfl hopen
  · exact fun hopen => absurd rfl hopen

theorem AskInv.receive (h : o.AskInv g) (hcount : o.pageCount ≤ 255)
    (hm : e.message = some (.packet p)) : (o.receive env p).AskInv (o.ask env e g) := by
  unfold Object.receive
  split_ifs with hw hcrc hset hlast
  · exact h.commit hcount hm ⟨hw, hcrc, hset⟩ hlast
  · exact h.store hcount hm ⟨hw, hcrc, hset⟩ hlast
  · exact h.collect hm hw hcrc
  · rw [ask_packet_not hm fun ht => hcrc ht.2]
    exact ⟨h.below, h.le, h.byte, h.finished, h.current, h.pending⟩
  · rw [ask_packet_not hm fun ht => hw ht.1]
    exact h

/-! ## A profile -/

/-- The profile of an event, as the runs below have it: see `AsksRight`; when there is no memory for
    the new table, it announces no more pages than there are and, in an unfinished update, has the
    current page. -/
def AskOk (o : Object) (env : Env) (m : DelugeMsgProfile) : Prop :=
  o.updateVersion < m.version →
    if env.heap.isSome then m.AsksRight o
    else m.npages ≤ o.pageCount ∧ (o.version ≠ o.updateVersion → o.currentRxPage < m.npages)

instance (o : Object) (env : Env) : DecidablePred (o.AskOk env) := fun m => by
  unfold AskOk
  infer_instance

/-- After an accepted profile of this kind the missing pages are those from the current one on. -/
theorem announce_missing_from (block : Nat → Mark) (hn : m.npages < 256) (hask : m.AsksRight o) :
    (o.announce m block).currentRxPage < m.npages ∧
      ∀ i, (o.announce m block).currentRxPage ≤ i → i < m.npages → m.LeavesMissing o i := by
  obtain ⟨hpos, hlast, hblock⟩ := hask
  have hcur := announce_current (o := o) block hn
  have hlt : (o.announce m block).available < m.npages := by
    apply Nat.lt_of_le_of_ne (available_le _)
    intro heq
    have hall := available_eq_iff.mp heq (m.npages - 1) (Nat.sub_lt hpos Nat.one_pos)
    rw [(announce_missing_iff block (Nat.sub_lt hpos Nat.one_pos)).mpr hlast] at hall
    cases hall
  have hfirst : m.LeavesMissing o (o.announce m block).available :=
    (announce_missing_iff block hlt).mp (Lib.firstFailing_at _ _ hlt)
  rw [hcur]
  refine ⟨hlt, ?_⟩
  intro i hle hi
  exact (hblock _ hlt hfirst).1 i hi hle

/-- A page that such a profile leaves missing is pending in the version announced. -/
theorem AskInv.pending_announce (h : o.AskInv g) (block : Nat → Mark) (hask : m.AsksRight o)
    {i : Nat} (hi : i < m.npages) (hmissing : m.LeavesMissing o i) :
    (o.announce m block).Pending (g.renew m o) i := by
  have hversion := (hask.2.2 i hi hmissing).2
  refine ⟨(announce_missing_iff block hi).mpr hmissing, ?_, ?_⟩
  · show (o.announcedMark m block i).version = m.versionVector i
    unfold announcedMark
    by_cases hcount : i < o.pageCount
    · rw [if_pos hcount] at hversion
      rw [if_pos (by omega)]
      split
      · rfl
      · omega
    · rw [if_neg hcount] at hversion
      rw [if_neg (by omega), if_pos hi]
      exact hversion.symm
  · intro k
    show (o.announcedMark m block i).packetSet.testBit k = true ↔
      k ∈ (if m.Clears o i then [] else g.taken i)
    by_cases hclears : m.Clears o i
    · rw [announcedMark_clears block hclears, if_pos hclears]
      simp
    · obtain ⟨hcount, hmark⟩ := announcedMark_not_clears block hi hclears
      rw [hmark, if_neg hclears]
      -- the page was missing before, so the update before was unfinished
      have hbefore : (o.marks i).complete = false := by
        rcases hmissing with hge | hv | hc
        · omega
        · exact absurd ⟨hi, .inr hv⟩ hclears
        · exact hc
      have hopen : o.version ≠ o.updateVersion := by
        intro hv
        rw [h.finished hv i hcount] at hbefore
        cases hbefore
      have hle : o.currentRxPage ≤ i := by
        by_contra hlt
        rw [h.below i (by omega)] at hbefore
        cases hbefore
      exact (h.pending hopen i hle hcount).2.2 k

theorem AskInv.announce (h : o.AskInv g) (block : Nat → Mark) (hn : m.npages < 256)
    (hv : o.updateVersion < m.version) (hbyte : ∀ i, m.versionVector i < 256)
    (hask : m.AsksRight o) : (o.announce m block).AskInv (g.renew m o) := by
  obtain ⟨hlt, hfrom⟩ := announce_missing_from block hn hask
  have hopen : o.version ≠ m.version := by
    have hle := h.le
    omega
  refine ⟨below_available (announce_current block hn), ?_, hbyte, ?_, fun _ => hlt, ?_⟩
  · exact Nat.le_of_lt (Nat.lt_of_le_of_lt h.le hv)
  · exact fun heq => absurd heq hopen
  · exact fun _ i hle hi => h.pending_announce block hask hi (hfrom i hle hi)

theorem AskInv.update (h : o.AskInv g) (hm : e.message = some (.profile m))
    (hbyte : ∀ i, m.versionVector i < 256) (hok : o.AskOk env m) :
    (o.update env m).AskInv (o.ask env e g) := by
  unfold Object.update
  by_cases hv : m.version ≤ o.updateVersion
  · have hnew : ¬ (o.updateVersion < m.version ∧ env.heap.isSome = true) := by omega
    simp only [ask, hm, if_pos hv, if_neg hnew]
    exact h
  · have hnew := hok (Nat.lt_of_not_le hv)
    match hheap : env.heap with
    | none =>
      simp only [hheap, Option.isSome_none, Bool.false_eq_true, if_false] at hnew
      simp only [ask, hm, if_neg hv, hheap, Option.isSome_none, Bool.false_eq_true, and_false,
        if_false]
      obtain ⟨hle, hcur⟩ := hnew
      refine ⟨h.below, h.le, h.byte, ?_, hcur, ?_⟩
      · exact fun heq i hi => h.finished heq i (Nat.lt_of_lt_of_le hi hle)
      · exact fun hopen i hi hlt => h.pending hopen i hi (Nat.lt_of_lt_of_le hlt hle)
    | some block =>
      simp only [hheap, Option.isSome_some, if_true] at hnew
      simp only [ask, hm, if_neg hv, hheap, Option.isSome_some, Nat.lt_of_not_le hv, and_true,
        if_true]
      exact h.announce _ (Event.npages_lt hm) (Nat.lt_of_not_le hv) hbyte hnew

/-- A delivered profile announces versions that fit their bytes. -/
theorem versionVector_lt (hm : e.message = some (.profile m)) (i : Nat) :
    m.versionVector i < 256 := by
  match e with
  | .receive sender b =>
    obtain ⟨rfl, _⟩ := message_profile hm
    exact b.byte_lt (4 + i)

/-- One event. -/
theorem AskInv.next (h : o.AskInv g) (hcount : o.pageCount ≤ 255)
    (hok : e.OnProfile (o.AskOk env)) : (o.next env e pending).AskInv (o.ask env e g) := by
  match hm : e.message with
  | none =>
    have hg : o.ask env e g = g := by simp only [ask, hm]
    rw [hg]
    have hnext : o.next env e pending = o ∨ o.next env e pending = o.serve env := next_none hm
    rcases hnext with hnext | hnext
    · rw [hnext]
      exact h
    · rw [hnext]
      exact ⟨h.below, h.le, h.byte, h.finished, h.current, h.pending⟩
  | some (.summary m) =>
    have hg : o.ask env e g = g := by simp only [ask, hm]
    rw [hg, next_summary hm]
    exact h
  | some (.request m) =>
    have hg : o.ask env e g = g := by simp only [ask, hm]
    rw [hg, next_some hm]
    dsimp only [handle]
    split
    · exact ⟨h.below, h.le, h.byte, h.finished, h.current, h.pending⟩
    · exact h
  | some (.packet p) =>
    rw [next_some hm]
    exact h.receive hcount hm
  | some (.profile m) =>
    rw [next_some hm]
    exact h.update hm (versionVector_lt hm) (hok m hm)

/-- The request `bytes` asks, in the state `o`, for the lowest missing page, exactly for the packets of
    it that were not taken in, and at the version announced for it; whoever holds that version and
    has the page answers it. -/
def AsksForMissing (o : Object) (g : Asked) (bytes : List UInt8) : Prop :=
  ∃ m : DelugeMsgRequest, (∀ stale, (Packetbuf.ofBytes bytes stale).message = some (.request m)) ∧
    m.pagenum = o.available ∧ m.pagenum < o.pageCount ∧
    (∀ k, k < nPkt → (m.requestSet.testBit k = true ↔ k ∉ g.taken m.pagenum)) ∧
    m.version = g.announced m.pagenum ∧
    ∀ n : Object, n.version = g.announced m.pagenum → m.pagenum < n.pageCount →
      m.pagenum ≤ n.available → n.Answers m

/-- `~packet_set` as an 8-bit field. -/
theorem testBit_requestSet (n : Nat) {k : Nat} (hk : k < 8) :
    ((255 - n % 256) % 256).testBit k = !n.testBit k := by
  have hsub : (255 - n % 256) % 256 = 2 ^ 8 - (n % 256 + 1) := by omega
  have hlow : (n % 256).testBit k = n.testBit k := by
    rw [show 256 = 2 ^ 8 from rfl, Nat.testBit_mod_two_pow]
    simp [hk]
  rw [hsub, Nat.testBit_two_pow_sub_succ (Nat.mod_lt _ (by decide)), hlow]
  simp [hk]

/-- The request of an unfinished update. -/
theorem AskInv.asksForMissing (h : o.AskInv g) (hcount : o.pageCount ≤ 255)
    (hopen : o.version ≠ o.updateVersion) (objectId : Nat) :
    o.AsksForMissing g (DelugeMsgRequest.bytes ⟨(o.marks o.currentRxPage).version,
      o.currentRxPage, 255 - (o.marks o.currentRxPage).packetSet % 256, objectId⟩) := by
  have hlt := h.current hopen
  obtain ⟨_, hv, hbits⟩ := h.pending hopen _ (Nat.le_refl _) hlt
  have hbyte := h.byte o.currentRxPage
  have hpage : o.currentRxPage % 256 = o.currentRxPage := Nat.mod_eq_of_lt (by omega)
  refine ⟨_, fun stale => message_request_bytes stale _, ?_, ?_, ?_, ?_, ?_⟩
  · show o.currentRxPage % 256 = o.available
    rw [hpage, h.available hopen]
  · show o.currentRxPage % 256 < o.pageCount
    rw [hpage]
    exact hlt
  · intro k hk
    show ((255 - _ % 256) % 256).testBit k = true ↔ k ∉ g.taken (o.currentRxPage % 256)
    rw [hpage, ← hbits k, testBit_requestSet _ (Nat.lt_of_lt_of_le hk (by decide))]
    simp
  · show _ % 256 = g.announced (o.currentRxPage % 256)
    rw [hpage, hv, Nat.mod_eq_of_lt hbyte]
  · intro n hn hcountn havail
    refine ⟨hcountn, ?_, havail⟩
    rw [hn]
    show _ % 256 = g.announced (o.currentRxPage % 256)
    rw [hpage, hv, Nat.mod_eq_of_lt hbyte]

end Object

theorem Fresh.askInv {f : File} {v : Nat} {s : Node} (h : Fresh f v s) :
    s.object.AskInv Asked.start := by
  have hsame : s.object.version = s.object.updateVersion := h.version.trans h.updateVersion.symm
  refine ⟨h.below, Nat.le_of_eq hsame, fun _ => Nat.succ_pos 255, fun _ => h.allComplete, ?_, ?_⟩
  · exact fun hopen => absurd hsame hopen
  · exact fun hopen => absurd hsame hopen

namespace Rx

/-- The steps in which no payload leaves `current_page` and a newer profile is one of those of
    `AskOk`. -/
structure RequestOk (a : Env × Event) (s : Node) : Prop where
  inBuffer : s.object.InBuffer a.2
  profile : a.2.OnProfile (s.object.AskOk a.1)

instance (a : Env × Event) (s : Node) : Decidable (RequestOk a s) :=
  decidable_of_iff (s.object.InBuffer a.2 ∧ a.2.OnProfile (s.object.AskOk a.1))
    ⟨fun h => ⟨h.1, h.2⟩, fun h => ⟨h.1, h.2⟩⟩

/-- `Object.ask` along a run. -/
def askStep (a : Env × Event) (s _s' : Node) (g : Asked) : Asked := s.object.ask a.1 a.2 g

variable {f : File} {v : Nat} {a : Env × Event} {s s' : Node}

/-- The only message sent to one neighbour is a request to `summary_from`, for the
    current page, when `rx_timer` has run down. -/
theorem unicast_eq (hst : step a.1 a.2 s = some s') {dst : RimeAddr} {bytes : List UInt8}
    (hx : Effect.unicast dst bytes ∈ s'.effects) :
    dst = s.summaryFrom ∧ bytes = DelugeMsgRequest.bytes ⟨(s.pages s.currentRxPage).version, s.currentRxPage,
      255 - (s.pages s.currentRxPage).packetSet % 256, s.objectId⟩ ∧
    a.2 = .rxTimer ∧ s.rxTimer = true := by
  generalize hu : Effect.unicast dst bytes = x at hx
  cases step_emits hst hx with
  | shared hx =>
    cases hx with
    | request he htimer =>
      cases hu
      exact ⟨rfl, rfl, he, htimer⟩
    | scan hx =>
      obtain ⟨i, _, rfl⟩ := hx
      cases hu
    | profile _ _ _ hx =>
      obtain ⟨i, _, rfl⟩ := hx
      cases hu
    | _ => cases hu
  | announceScan _ _ _ hx =>
    obtain ⟨i, _, rfl⟩ := hx
    cases hu
  | _ => cases hu

theorem askInv_of_reach {x : Node × Asked}
    (h : Reach (fun x => Booted f v x.1 ∧ x.2 = Asked.start) (observed Step askStep)
      (fun a x => RequestOk a x.1) x) : x.1.object.AskInv x.2 := by
  refine h.invariant (I := fun x => x.1.object.AskInv x.2) ?_ ?_
  · intro x h0
    rw [h0.2]
    exact h0.1.fresh.askInv
  · intro a x y hinv hok hst
    obtain ⟨hst, hg⟩ := hst
    rw [hg, step_refines (hst.eq_some hok.inBuffer)]
    exact hinv.next (pageCount_le x.1) hok.profile

/-- In an unfinished update the timer is pending and the request is for page `i` at version `v`. -/
def RequestsAt (i v : Nat) (s : Node) : Bool :=
  decide (s.version ≠ s.updateVersion ∧ s.rxTimer = true ∧ s.currentRxPage = i ∧
    (s.object.marks i).version = v)

theorem exists_unicast (h : s.rxTimer = true) : ∃ s', Step fireRx s s' ∧
    Effect.unicast s.summaryFrom (DelugeMsgRequest.bytes ⟨(s.pages s.currentRxPage).version,
      s.currentRxPage, 255 - (s.pages s.currentRxPage).packetSet % 256, s.objectId⟩) ∈
        s'.effects := by
  refine ⟨_, Lib.Havoc.of_eq rfl, ?_⟩
  show _ ∈ (if s.rxTimer then _ else _ : Node).effects
  rw [if_pos h]
  simp only [sendRequest, limitRequests_effects]
  exact List.mem_cons_self

end Rx

end Adler.Deluge
