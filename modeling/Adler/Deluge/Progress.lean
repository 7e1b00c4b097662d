/-
  Whether dissemination can still end, whatever happened so far.

  * `Msg.Fits`: the frame is short enough for the radio of the stack below.
  * `Follows`: a state of the network that can be brought about from here, file operations succeeding and
    no other frames being heard.
  * `Live`: what a receiver that has accepted the profile needs, besides `Fetching`, to go on.
  * `offered`, `answered`, `published`, `requested`, `served`, `filled`: the legs of an update, each from
    any state of the network: the gateway's next round offers its pages, a receiver with an old version
    says so and is sent the profile, one with the new version asks for its current page, the gateway
    sends what was asked for, and the page is complete.
  * `updates_iff`: all receivers can still be updated exactly when a profile is heard and passes the
    length test of its receiver, which takes version 1 and at most 106 pages, and there is a page.
    Otherwise none is.
-/
import Adler.Deluge.Answer
import Adler.Deluge.Completion
import Adler.Deluge.Frame
import Adler.Deluge.Noise
import Adler.Deluge.Payload
import Adler.Deluge.RateLimit
import Adler.Deluge.Requests
import Adler.Net.Rime

namespace Adler.Deluge

open Lib (Mem Protocol Reach Later Sent)
open Node

/-! ## Frames and the radio -/

/-- The two bytes of an address. -/
def RimeAddr.toRimeaddr (a : RimeAddr) : Net.Rimeaddr 2 :=
  fun i => if i.val = 0 then a.toUInt8 else (a >>> 8).toUInt8

/-- The frame as a message of Rime, on `DELUGE_UNICAST_CHANNEL` or `DELUGE_BROADCAST_CHANNEL`. -/
def Msg.toMessage (m : Msg) (seqno : UInt16) : Net.Message 2 where
  sender := m.src.toRimeaddr
  kind := if m.dst.isSome then .unicast else .broadcast
  receiver := (m.dst.getD 0).toRimeaddr
  channelno := if m.dst.isSome then 55 else 56
  payload := m.bytes
  seqno := seqno

/-- With the headers of the stack the frame is no longer than the radio takes. -/
def Msg.Fits (m : Msg) : Prop := ∀ seqno, (m.toMessage seqno).frameLen ≤ Net.maxFrame

theorem Msg.fits_iff (m : Msg) :
    m.Fits ↔ m.bytes.length ≤ if m.dst.isSome then 108 else 110 := by
  have hlen : ∀ seqno, (m.toMessage seqno).frameLen =
      (if m.dst.isSome then 17 else 15) + m.bytes.length := by
    intro seqno
    unfold Net.Message.frameLen Msg.toMessage
    simp only [ite_self]
    cases m.dst <;> rfl
  unfold Fits
  simp only [hlen, Net.maxFrame, forall_const]
  split <;> omega

/-! ## Scheduling -/

/-- The steps in which file operations succeed and only frames that the radio takes are heard. -/
def RadioOk (ia : RimeAddr × NetEvent) (N : Protocol.Net RimeAddr Node Msg) : Prop :=
  NetFilesOk ia N ∧ ∀ m, ia.2.input = some m → m.Fits

abbrev Network := Protocol.Net RimeAddr Node Msg

/-- The frame has been sent. -/
def WasSent (N : Network) (m : Msg) : Prop := ∃ x ∈ N.soup, x.msg = m

/-- `N'` can come after `N` by such steps. -/
def Follows (g : RimeAddr) (f : File) (v : Nat) (N N' : Network) : Prop :=
  Later (network g (Spreads g f v)).Step RadioOk N N'

/-- After node `j` has become `s`, all else being the same. -/
structure Became (N : Network) (j : RimeAddr) (s : Node) (N' : Network) : Prop where
  self : N'.node j = s
  other : ∀ k, k ≠ j → N'.node k = N.node k
  old : ∀ m, WasSent N m → WasSent N' m
  new : ∀ m ∈ s.msgs j, WasSent N' m

section

variable {g i j : RimeAddr} {f : File} {v : Nat} {N N' N'' : Network} {s s' : Node}

theorem Follows.refl (N : Network) : Follows g f v N N := Relation.ReflTransGen.refl

theorem Follows.trans (h : Follows g f v N N') (h' : Follows g f v N' N'') : Follows g f v N N'' :=
  Relation.ReflTransGen.trans h h'

theorem Follows.reach (h : Follows g f v N N')
    (hN : Reach (network g (Spreads g f v)).Init (network g (Spreads g f v)).Step RadioOk N) :
    Reach (network g (Spreads g f v)).Init (network g (Spreads g f v)).Step RadioOk N' :=
  Later.invariant (I := Reach (network g (Spreads g f v)).Init (network g (Spreads g f v)).Step
    RadioOk) (fun _ _ _ hN hok hst => .step hN hok hst) h hN

theorem follows_step {a : NetEvent} (hat : a.At j) (hfiles : a.event.1.FilesOk)
    (hin : ∀ m, a.input = some m → WasSent N m ∧ m.Fits)
    (hst : nodeStep g j a.event.1 a.event.2 (N.node j) = some s) :
    ∃ N', Follows g f v N N' ∧ Became N j s N' := by
  refine ⟨_, .single ⟨(j, a), ⟨hfiles, fun m hm => (hin m hm).2⟩, s, ⟨hat, Lib.Havoc.of_eq hst⟩,
    fun m hm => (hin m hm).1, rfl⟩, ?_⟩
  exact {
    self := Function.update_self ..
    other := fun k hk => Function.update_of_ne hk ..
    old := fun m ⟨x, hx, hm⟩ => ⟨x, List.mem_append_left _ hx, hm⟩
    new := fun m hm => ⟨⟨j, s, m⟩, List.mem_append_right _ (List.mem_map.mpr ⟨m, hm, rfl⟩), rfl⟩ }

/-- A node's own event. -/
theorem follows_tick {e : Event} (he : e.isReceive = false)
    (hst : nodeStep g j quietEnv e (N.node j) = some s) :
    ∃ N', Follows g f v N N' ∧ Became N j s N' :=
  follows_step (a := .tick quietEnv e) he ⟨rfl, _, rfl, Nat.le_refl _⟩ (fun _ hm => by cases hm) hst

/-- A frame is heard at the time `now`. -/
theorem follows_hear {m : Msg} (now : UInt32) (hm : WasSent N m) (hfits : m.Fits) (hsrc : m.src ≠ j)
    (hdst : m.dst = none ∨ m.dst = some j)
    (hst : nodeStep g j { quietEnv with now := now }
      (.receive m.src (.ofBytes m.bytes fun _ => 0)) (N.node j) = some s) :
    ∃ N', Follows g f v N N' ∧ Became N j s N' :=
  follows_step (a := .hear { quietEnv with now := now } m fun _ => 0) ⟨hsrc, hdst⟩
    ⟨rfl, _, rfl, Nat.le_refl _⟩
    (fun _ h => Option.some.inj h ▸ ⟨hm, hfits⟩) hst

end

theorem fits_summary (src : RimeAddr) (m : DelugeMsgSummary) : (⟨src, none, m.bytes⟩ : Msg).Fits :=
  (Msg.fits_iff _).mpr (show 4 ≤ 110 by decide)

theorem fits_request (src dst : RimeAddr) (m : DelugeMsgRequest) :
    (⟨src, some dst, m.bytes⟩ : Msg).Fits :=
  (Msg.fits_iff _).mpr (show 5 ≤ 108 by decide)

theorem fits_packet (src : RimeAddr) (s : Node) (pagenum k : Nat) (buf : Mem) :
    (⟨src, none, (packetOf s pagenum buf k).bytes⟩ : Msg).Fits := by
  refine (Msg.fits_iff _).mpr ?_
  rw [DelugeMsgPacket.length_bytes _ (packetOf_payload _ _ _ _)]
  exact (by decide : 72 ≤ 110)

/-! ## What a message does -/

section

variable (env : Env) (src : RimeAddr) {b : Packetbuf} {s : Node}

theorem Rx.hears_summary {m : DelugeMsgSummary} (hm : b.message = some (.summary m)) :
    Rx.step env (.receive src b) s =
      some (Rx.handleSummary env m src { s with effects := [] }) := by
  unfold Rx.step Rx.commandDispatcher
  simp only [commandDispatcherWith_eq, hm]

theorem Tx.hears_summary {m : DelugeMsgSummary} (hm : b.message = some (.summary m)) :
    Tx.step env (.receive src b) s =
      some (Tx.handleSummary env m src { s with effects := [] }) := by
  unfold Tx.step Tx.commandDispatcher
  simp only [commandDispatcherWith_eq, hm]

theorem Tx.hears_request {m : DelugeMsgRequest} (hm : b.message = some (.request m)) :
    Tx.step env (.receive src b) s = some (handleRequest env m { s with effects := [] }) := by
  unfold Tx.step Tx.commandDispatcher
  simp only [commandDispatcherWith_eq, hm]

end

/-! ## The timers -/

section

variable {env : Env} {i : RimeAddr} {s : Node}

theorem broadcast_msg (i : RimeAddr) (bytes : List UInt8) (s : Node) :
    ⟨i, none, bytes.take packetbufSize⟩ ∈ (s.broadcast bytes).msgs i :=
  List.mem_filterMap.mpr ⟨.broadcast (bytes.take packetbufSize),
    List.mem_reverse.mpr List.mem_cons_self, rfl⟩

/-- A round in which nothing has been heard yet ends with a summary. -/
theorem advertiseSummary_msg (i : RimeAddr) (h : s.recvAdv = 0) :
    ⟨i, none, DelugeMsgSummary.bytes ⟨s.updateVersion, s.object.available, s.objectId⟩⟩ ∈
      (advertiseSummary s).msgs i := by
  unfold advertiseSummary
  rw [h, if_neg (by decide)]
  exact broadcast_msg i _ (scanPages s)

theorem sendProfile_msg (i : RimeAddr) (h : s.recvAdv = 0) (hprofile : s.broadcastProfile = true) :
    ⟨i, none, (profileOf s).bytes.take packetbufSize⟩ ∈ (sendProfile s).msgs i := by
  unfold sendProfile
  rw [h, hprofile, if_pos (by decide)]
  exact broadcast_msg i _ _

theorem Rx.sendRequest_msg (i : RimeAddr) :
    ⟨i, some s.summaryFrom, DelugeMsgRequest.bytes ⟨(s.pages s.currentRxPage).version,
        s.currentRxPage, 255 - (s.pages s.currentRxPage).packetSet % 256, s.objectId⟩⟩ ∈
      (Rx.sendRequest env s).msgs i := by
  refine List.mem_filterMap.mpr ⟨.unicast s.summaryFrom (DelugeMsgRequest.bytes
    ⟨(s.pages s.currentRxPage).version, s.currentRxPage,
      255 - (s.pages s.currentRxPage).packetSet % 256, s.objectId⟩), ?_, rfl⟩
  rw [List.mem_reverse]
  simp only [Rx.sendRequest, limitRequests_effects]
  exact List.mem_cons_self

theorem mem_effects_of_broadcasts {bytes : List UInt8} (h : bytes ∈ s.broadcasts) :
    Effect.broadcast bytes ∈ s.effects := by
  obtain ⟨x, hx, hbytes⟩ := List.mem_filterMap.mp h
  cases x with
  | broadcast b =>
    cases hbytes
    exact List.mem_reverse.mp hx
  | _ => cases hbytes

/-- A queued page is sent. -/
theorem txCallback_msg (i : RimeAddr) (hq : s.object.Queued) {k : Nat} (hk : k < nPkt)
    (hbit : s.txSet.testBit k = true) :
    ⟨i, none, (packetOf s s.currentTxPage.toNat (s.sendBuffer env) k).bytes⟩ ∈
      (txCallback env s).msgs i := by
  rw [txCallback_eq, if_pos hq]
  refine List.mem_filterMap.mpr
    ⟨.broadcast (packetOf s s.currentTxPage.toNat (s.sendBuffer env) k).bytes, ?_, rfl⟩
  rw [List.mem_reverse, transition_effects]
  have hmem : (packetOf s s.currentTxPage.toNat (s.sendBuffer env) k).bytes ∈
      (sendPage env s.currentTxPage.toNat s).broadcasts := by
    rw [sendPage_broadcasts]
    exact List.mem_append_right _ (List.mem_map.mpr
      ⟨k, List.mem_filter.mpr ⟨List.mem_range.mpr hk, hbit⟩, rfl⟩)
  exact mem_effects_of_broadcasts hmem

end

/-! ## Summaries -/

section

variable (env : Env) (src : RimeAddr) {m : DelugeMsgSummary} {s : Node}

/-- A receiver that knows of no update answers a newer version in the same round. -/
theorem Rx.handleSummary_asks (hsame : s.updateVersion = s.version) (hnewer : s.version < m.version) :
    (Rx.handleSummary env m src s).summaryTimer = true ∧
      (Rx.handleSummary env m src s).recvAdv = s.recvAdv := by
  have hdiffers : m.version ≠ s.version := by omega
  have hno : ¬ (m.version = s.updateVersion ∧ highestAvailablePage s < m.highestAvailable) := by
    omega
  have hsum : Rx.handleSummary env m src s =
      Rx.askProfile m src (noteSummary m (highestAvailablePage s) (scanPages s)) := if_neg hno
  rw [hsum]
  constructor
  · simp [Rx.askProfile, noteSummary, scanPages, touchBelow, hsame, hnewer]
  · simp [Rx.askProfile, noteSummary, scanPages, touchBelow, hdiffers]

theorem Rx.offerRequest_arms (hle : m.highestAvailable ≤ s.pageCount) (hrun : s.rxRunning = false)
    (hrequest : s.rInterval < Rx.secondsSince env.now (s.pages s.currentRxPage).lastRequest)
    (hdata : s.rInterval < Rx.secondsSince env.now (s.pages s.currentRxPage).lastData) :
    (Rx.offerRequest env m src s).rxTimer = true ∧
      (Rx.offerRequest env m src s).summaryFrom = src := by
  have hlate : ¬ (Rx.secondsSince env.now (s.pages s.currentRxPage).lastRequest ≤ s.rInterval ∨
      Rx.secondsSince env.now (s.pages s.currentRxPage).lastData ≤ s.rInterval) := by
    omega
  have hoffer : Rx.offerRequest env m src s =
      armExpiredRx (transition .rx (copySender src (s.touch s.currentRxPage))) :=
    (if_neg (Nat.not_lt.mpr hle)).trans (if_neg hlate)
  rw [hoffer]
  exact ⟨(enterRx_rxTimer _).mpr (.inl hrun),
    congrArg Prod.fst (transition_kept (copySender src (s.touch s.currentRxPage)) .rx)⟩

/-- A receiver of the same update that is offered more schedules a request, when its current page was
    last asked for and last heard of long ago and the event timer of `rx_timer` has run down. -/
theorem Rx.handleSummary_arms (hversion : m.version = s.updateVersion)
    (hmore : s.object.available < m.highestAvailable) (hle : m.highestAvailable ≤ s.pageCount)
    (hrun : s.rxRunning = false)
    (hrequest : s.rInterval < Rx.secondsSince env.now (s.pages s.currentRxPage).lastRequest)
    (hdata : s.rInterval < Rx.secondsSince env.now (s.pages s.currentRxPage).lastData) :
    (Rx.handleSummary env m src s).rxTimer = true ∧
      (Rx.handleSummary env m src s).summaryFrom = src := by
  have hsum : Rx.handleSummary env m src s = Rx.offerRequest env m src
      (Rx.askProfile m src (noteSummary m (highestAvailablePage s) (scanPages s))) :=
    if_pos ⟨hversion, hmore⟩
  rw [hsum]
  exact Rx.offerRequest_arms env src hle hrun hrequest hdata

/-- The gateway answers an older version with its profile. -/
theorem Tx.handleSummary_old (holder : m.version < s.version) (hsame : s.updateVersion = s.version) :
    (Tx.handleSummary env m src s).broadcastProfile = true := by
  have hno : ¬ (m.version = s.updateVersion ∧ highestAvailablePage s < m.highestAvailable) := by
    omega
  have hpost : ¬ (m.version = s.version ∧ m.highestAvailable = highestAvailablePage s) := by omega
  have hreport : Tx.postReport m src (highestAvailablePage s)
      (noteSummary m (highestAvailablePage s) (scanPages s)) =
        noteSummary m (highestAvailablePage s) (scanPages s) := if_neg hpost
  have hsum : ∀ t : Node, (if m.version =
        (noteSummary m (highestAvailablePage s) (scanPages s)).updateVersion ∧
          highestAvailablePage s < m.highestAvailable then t
      else noteSummary m (highestAvailablePage s) (scanPages s)) =
        noteSummary m (highestAvailablePage s) (scanPages s) := fun _ => if_neg hno
  unfold Tx.handleSummary
  dsimp only
  rw [hreport, hsum]
  simp [noteSummary, scanPages, touchBelow, holder]

end

/-! ## The events of an update at their nodes -/

namespace Rx

variable (env : Env) (src : RimeAddr) {b : Packetbuf} {s : Node}

theorem round_fresh (s : Node) :
    ∃ s', step env .round s = some s' ∧ s'.object = s.object ∧ s'.recvAdv = 0 :=
  ⟨_, rfl, rfl, rfl⟩

theorem hears_newer {m : DelugeMsgSummary} (hm : b.message = some (.summary m))
    (hsame : s.updateVersion = s.version) (hnewer : s.version < m.version) :
    ∃ s', step env (.receive src b) s = some s' ∧ s'.object = s.object ∧ s'.summaryTimer = true ∧
      s'.recvAdv = s.recvAdv := by
  obtain ⟨hasks, hadv⟩ := handleSummary_asks env src (m := m)
    (s := { s with effects := [] }) hsame hnewer
  exact ⟨_, hears_summary env src hm, handleSummary_object _ _ _ _, hasks, hadv⟩

theorem summary_fires (i : RimeAddr) (htimer : s.summaryTimer = true)
    (hadv : s.recvAdv = 0) :
    ∃ s' id, step env .summaryTimer s = some s' ∧ s'.object = s.object ∧
      ⟨i, none, DelugeMsgSummary.bytes ⟨s.updateVersion, s.object.available, id⟩⟩ ∈ s'.msgs i := by
  have hst : step env .summaryTimer s =
      some (advertiseSummary { s with effects := [], summaryTimer := false }) := by
    unfold step
    dsimp only
    rw [if_pos htimer]
  exact ⟨_, _, hst, advertiseSummary_object _, advertiseSummary_msg i hadv⟩

/-- A profile that is accepted. -/
theorem hears_profile {m : DelugeMsgProfile} (hm : b.message = some (.profile m))
    (hv : s.updateVersion < m.version) (hheap : env.heap.isSome = true) :
    ∃ s', step env (.receive src b) s = some s' ∧ s'.updateVersion = m.version := by
  have hin : s.object.InBuffer (.receive src b) := by
    intro p hp _
    cases hm.symm.trans hp
  obtain ⟨s', hst⟩ : ∃ s', step env (.receive src b) s = some s' := step_isSome hin
  obtain ⟨block, hblock⟩ := Option.isSome_iff_exists.mp hheap
  have hobj := step_refines hst
  rw [Object.next_announce (e := .receive src b) hm hv hblock] at hobj
  exact ⟨s', hst, congrArg Object.updateVersion hobj⟩

/-- The event timer of `rx_timer` runs down. -/
theorem timer_expires (s : Node) : ∃ s', step env .rxExpires s = some s' ∧ s'.object = s.object ∧
    s'.rxRunning = false :=
  ⟨_, rfl, rfl, rfl⟩

/-- More pages are offered in the update the receiver is in. -/
theorem hears_offer {m : DelugeMsgSummary} (hm : b.message = some (.summary m))
    (hversion : m.version = s.updateVersion) (hmore : s.object.available < m.highestAvailable)
    (hle : m.highestAvailable ≤ s.pageCount) (hrun : s.rxRunning = false)
    (hrequest : s.rInterval < secondsSince env.now (s.pages s.currentRxPage).lastRequest)
    (hdata : s.rInterval < secondsSince env.now (s.pages s.currentRxPage).lastData) :
    ∃ s', step env (.receive src b) s = some s' ∧ s'.object = s.object ∧ s'.rxTimer = true ∧
      s'.summaryFrom = src := by
  obtain ⟨htimer, hfrom⟩ := handleSummary_arms env src (m := m)
    (s := { s with effects := [] }) hversion hmore hle hrun hrequest hdata
  exact ⟨_, hears_summary env src hm, handleSummary_object _ _ _ _, htimer, hfrom⟩

theorem request_fires (i : RimeAddr) (htimer : s.rxTimer = true) :
    ∃ s' id, step env .rxTimer s = some s' ∧ s'.object = s.object ∧
      ⟨i, some s.summaryFrom, DelugeMsgRequest.bytes ⟨(s.object.marks s.currentRxPage).version,
        s.currentRxPage, 255 - (s.object.marks s.currentRxPage).packetSet % 256, id⟩⟩ ∈
          s'.msgs i := by
  have hst : step env .rxTimer s =
      some (sendRequest env (takeRx { s with effects := [] })) := by
    unfold step
    dsimp only
    rw [if_pos htimer]
  exact ⟨_, s.objectId, hst, (step_refines hst).trans rfl, sendRequest_msg i⟩

/-- A packet of the current page that is missing. -/
theorem hears_packet {p : DelugeMsgPacket} (hm : b.message = some (.packet p))
    (hnum : p.packetnum < nPkt) :
    ∃ s', step env (.receive src b) s = some s' ∧ s'.object = s.object.receive env p := by
  have hin : s.object.InBuffer (.receive src b) := by
    intro q hq _
    cases hm.symm.trans hq
    exact hnum
  obtain ⟨s', hst⟩ : ∃ s', step env (.receive src b) s = some s' := step_isSome hin
  have hobj := step_refines hst
  rw [Object.next_some (e := .receive src b) hm] at hobj
  exact ⟨s', hst, hobj⟩

end Rx

namespace Tx

variable (env : Env) (src : RimeAddr) {b : Packetbuf} {s : Node}

/-- A new round: nothing has been heard, and both timers run. -/
theorem round_fresh (s : Node) :
    ∃ s', step env .round s = some s' ∧ s'.object = s.object ∧ s'.recvAdv = 0 ∧
      s'.summaryTimer = true ∧ s'.profileTimer = true ∧ s'.broadcastProfile = s.broadcastProfile :=
  ⟨_, rfl, rfl, rfl, rfl, rfl, rfl⟩

theorem summary_fires (i : RimeAddr) (htimer : s.summaryTimer = true)
    (hadv : s.recvAdv = 0) :
    ∃ s' id, step env .summaryTimer s = some s' ∧ s'.object = s.object ∧
      ⟨i, none, DelugeMsgSummary.bytes ⟨s.updateVersion, s.object.available, id⟩⟩ ∈ s'.msgs i := by
  have hst : step env .summaryTimer s =
      some (advertiseSummary { s with effects := [], summaryTimer := false }) := by
    unfold step
    dsimp only
    rw [if_pos htimer]
  exact ⟨_, _, hst, advertiseSummary_object _, advertiseSummary_msg i hadv⟩

theorem hears_older {m : DelugeMsgSummary} (hm : b.message = some (.summary m))
    (holder : m.version < s.version) (hsame : s.updateVersion = s.version) :
    ∃ s', step env (.receive src b) s = some s' ∧ s'.broadcastProfile = true :=
  ⟨_, hears_summary env src hm, handleSummary_old env src (s := { s with effects := [] }) holder hsame⟩

theorem profile_fires (i : RimeAddr) (htimer : s.profileTimer = true)
    (hadv : s.recvAdv = 0) (hprofile : s.broadcastProfile = true) :
    ∃ s', step env .profileTimer s = some s' ∧
      ⟨i, none, (profileOf s).bytes.take packetbufSize⟩ ∈ s'.msgs i := by
  have hst : step env .profileTimer s =
      some (sendProfile { s with effects := [], profileTimer := false }) := by
    unfold step
    dsimp only
    rw [if_pos htimer]
  exact ⟨_, hst, sendProfile_msg i hadv hprofile⟩

theorem handleRequest_txTimer {m : DelugeMsgRequest} (ha : s.object.Answers m) :
    (handleRequest env m s).txTimer = true := by
  have hin : ¬ s.pageCount ≤ m.pagenum := Nat.not_le.mpr ha.1
  unfold handleRequest
  rw [if_neg hin]
  have hanswer : m.version = (scanPages (noteVersion m.version s)).version ∧
      m.pagenum ≤ highestAvailablePage (noteVersion m.version s) := ha.2
  dsimp only
  rw [if_pos hanswer]
  rfl

/-- A request that is answered. -/
theorem asked {m : DelugeMsgRequest} (hm : b.message = some (.request m)) (ha : s.object.Answers m) :
    ∃ s', step env (.receive src b) s = some s' ∧ s'.object = s.object.queue m ∧
      s'.txTimer = true := by
  have hst := hears_request env src (s := s) hm
  exact ⟨_, hst, (step_request (e := .receive src b) hm ha hst).1, handleRequest_txTimer env ha⟩

/-- What is queued is sent. -/
theorem page_fires (i : RimeAddr) (htimer : s.txTimer = true) (hq : s.object.Queued) :
    ∃ s', step env .txTimer s = some s' ∧ ∀ k, k < nPkt → s.txSet.testBit k = true →
      ⟨i, none, (packetOf s s.currentTxPage.toNat (s.sendBuffer env) k).bytes⟩ ∈ s'.msgs i := by
  have hst : step env .txTimer s =
      some (txCallback env { s with effects := [], txTimer := false }) := by
    unfold step
    dsimp only
    rw [if_pos htimer]
  exact ⟨_, hst, fun k hk hbit => txCallback_msg i (s := { s with effects := [], txTimer := false })
    hq hk hbit⟩

end Tx

/-! ## What a receiver needs to go on -/

/-- A receiver of the image can still get all pages. -/
structure Live (v n : Nat) (s : Node) : Prop where
  nrequests : s.nrequests = 0
  low : Rx.tLow ≤ s.rInterval
  high : s.rInterval ≤ tHigh
  /-- Of the current page a packet is missing. -/
  missing : s.updateVersion = v → s.currentRxPage < n →
    (s.object.marks s.currentRxPage).packetSet ≤ allPackets ∧
      (s.object.marks s.currentRxPage).packetSet ≠ allPackets
  committed : s.updateVersion = v → s.currentRxPage = n → s.version = v

/-- What an event leaves of the last two. -/
def Object.Going (v n : Nat) (o : Object) : Prop :=
  (o.currentRxPage < n → (o.marks o.currentRxPage).packetSet ≤ allPackets ∧
    (o.marks o.currentRxPage).packetSet ≠ allPackets) ∧ (o.currentRxPage = n → o.version = v)

section

variable {f : File} {v n : Nat} {env : Env} {e : Event} {pending : Bool} {o o' : Object}
  {s s' : Node}

/-- Nothing of the first page is there yet. -/
theorem Waiting.going_announce (h : Waiting f n o) {m : DelugeMsgProfile} (hm : m.Publishes v n)
    (hv : 0 < v) (hn : 0 < n) (block : Nat → Mark) : (o.announce m block).Going v n := by
  have hlt : (0 : Nat) < min m.npages o.pageCount := by
    rw [hm.npages, h.pageCount]
    omega
  have hnew : m.versionVector 0 > (o.marks 0).version := by
    rw [hm.vector hv 0 hn, h.versions 0 hn]
    exact hv
  have hmark : o.announcedMark m block 0 = ⟨0, false, m.versionVector 0⟩ := by
    rw [Object.announcedMark, if_pos hlt, if_pos hnew]
  have hcurrent : (o.announce m block).currentRxPage = 0 := by
    have hfirst : Lib.firstFailing (fun i => (o.announcedMark m block i).complete) m.npages = 0 :=
      Lib.firstFailing_eq (Nat.zero_le _) (fun i hi => absurd hi (Nat.not_lt_zero i)) fun _ => by
        rw [hmark]
    exact (congrArg (· % 256) hfirst).trans rfl
  refine ⟨fun _ => ?_, fun hfull => ?_⟩
  · rw [hcurrent]
    change (o.announcedMark m block 0).packetSet ≤ allPackets ∧
      (o.announcedMark m block 0).packetSet ≠ allPackets
    rw [hmark]
    exact ⟨Nat.zero_le _, by simp⟩
  · rw [hcurrent] at hfull
    omega

theorem Fetching.going (h : Fetching f v n o) (hgoing : o.Going v n) (hn : n ≤ 255)
    (hheard : ∀ msg, e.message = some msg → Genuine f v n msg)
    (hc : Object.Change env e pending o o') : o'.Going v n := by
  have hnew : ∀ m, e.message = some (.profile m) → ¬ o.updateVersion < m.version := fun m hm =>
    Nat.not_lt.mpr (Nat.le_of_eq ((hheard _ hm).version.trans h.updateVersion.symm))
  have hnext : ∀ p, e.message = some (.packet p) → o.Completes p →
      (o.store env p).currentRxPage = o.currentRxPage + 1 ∧ o.currentRxPage < n := by
    intro p hm hc
    have hlt : o.currentRxPage < n := hc.1.1 ▸ (hheard _ hm).2.1
    exact ⟨Nat.mod_eq_of_lt (by omega), hlt⟩
  cases hc with
  | same | queue _ _ | spoil _ _ _ | serve _ _ _ => exact hgoing
  | @collect p hm hw _ hset =>
    refine ⟨fun hlt => ?_, hgoing.2⟩
    have hmark : (o.collect p).marks o.currentRxPage =
        { o.marks o.currentRxPage with packetSet := o.setWith p } := Function.update_self ..
    change ((o.collect p).marks o.currentRxPage).packetSet ≤ allPackets ∧
      ((o.collect p).marks o.currentRxPage).packetSet ≠ allPackets
    rw [hmark]
    exact ⟨Object.setWith_le (hgoing.1 hlt).1 (hheard _ hm).2.2.1, hset⟩
  | @store p hm hc hlast =>
    obtain ⟨hcur, hlt⟩ := hnext p hm hc
    refine ⟨fun hlt' => ?_, fun hfull => ?_⟩
    · have hne : (o.store env p).currentRxPage ≠ o.currentRxPage := by omega
      rw [Object.store_marks_ne env p hne, h.untouched _ hlt' (by omega)]
      decide
    · have hlast : ¬ o.currentRxPage = (o.pageCount + 65535) % 65536 := hlast
      have hcount := h.pageCount
      omega
  | @commit p hm hc _ =>
    obtain ⟨hcur, hlt⟩ := hnext p hm hc
    refine ⟨fun hlt' => ?_, fun _ => h.updateVersion⟩
    have hlt' : (o.store env p).currentRxPage < n := hlt'
    have hne : (o.store env p).currentRxPage ≠ o.currentRxPage := by omega
    change ((o.store env p).marks (o.store env p).currentRxPage).packetSet ≤ allPackets ∧
      ((o.store env p).marks (o.store env p).currentRxPage).packetSet ≠ allPackets
    rw [Object.store_marks_ne env p hne, h.untouched _ hlt' (by omega)]
    decide
  | announce hm hv _ | resize hm hv _ => exact absurd hv (hnew _ hm)

/-- One event of a receiver. -/
theorem Live.step (h : Live v n s) (hclient : Client f v n s) (hv : 0 < v) (hn : 0 < n)
    (hn' : n ≤ 255) (hheard : ∀ msg, e.message = some msg → Genuine f v n msg)
    (hst : Rx.step env e s = some s') : Live v n s' := by
  have hpaced := Rx.step_paced h.nrequests hst
  obtain ⟨hlow, hhigh⟩ := hpaced.interval h.low h.high
  have hchange := Rx.step_change hst
  have hgoing : s'.object.updateVersion = v → s'.object.Going v n := by
    intro hupdate
    rcases hclient.phase with ⟨hwaiting, _⟩ | hfetching
    · -- only a profile raises `update_version`
      have hzero : s.object.updateVersion ≠ v := by
        rw [hwaiting.updateVersion]
        omega
      generalize s'.object = o at hupdate hchange ⊢
      cases hchange with
      | announce hm _ _ => exact hwaiting.going_announce (hheard _ hm) hv hn _
      | _ => exact absurd hupdate hzero
    · refine hfetching.going ⟨?_, ?_⟩ hn' hheard hchange
      · exact h.missing hfetching.updateVersion
      · exact h.committed hfetching.updateVersion
  exact {
    nrequests := hpaced.nrequests.trans h.nrequests
    low := hlow
    high := hhigh
    missing := fun hu => (hgoing hu).1
    committed := fun hu => (hgoing hu).2 }

end

/-! ## The legs of an update -/

/-- The invariant of a node: that of the image, and a receiver's means to go on. -/
def LiveParty (g : RimeAddr) (f : File) (v n : Nat) (i : RimeAddr) (s : Node) : Prop :=
  ImageParty g f v n i s ∧ (i ≠ g → Live v n s)

section

variable {g i : RimeAddr} {f : File} {v : Nat} {N N' : Network}

theorem live_inv (hv : 0 < v % 256) (hn : 0 < pagesOf f)
    (h : Reach (network g (Spreads g f v)).Init (network g (Spreads g f v)).Step RadioOk N) :
    Protocol.Inv (LiveParty g f (v % 256) (pagesOf f)) (OnAirGenuine f (v % 256) (pagesOf f)) N := by
  have hinit : ∀ i s, Spreads g f v i s → LiveParty g f (v % 256) (pagesOf f) i s := by
    intro i s hs
    refine ⟨imageParty_init hs, fun hi => ?_⟩
    obtain ⟨e, _, hs⟩ := hs
    rw [if_neg hi] at hs
    obtain ⟨f', _, hs⟩ := hs
    have hboot : Rx.Booted f' 0 s := ⟨e, hs⟩
    obtain ⟨hnum, hlow, hhigh⟩ := hboot.interval
    have hupdate : ∀ P : Prop, s.updateVersion = v % 256 → P := fun P hu => by
      have hzero : s.updateVersion = 0 := hboot.fresh.updateVersion
      omega
    exact ⟨hnum, hlow, Nat.le_trans hhigh (by decide), fun hu => hupdate _ hu, fun hu => hupdate _ hu⟩
  have hstep : ∀ i (a : NetEvent) s s', LiveParty g f (v % 256) (pagesOf f) i s →
      a.event.1.FilesOk →
      (∀ m, a.input = some m → ∃ x, OnAirGenuine f (v % 256) (pagesOf f) x ∧ x.msg = m) →
      (network g (Spreads g f v)).step i a s s' → LiveParty g f (v % 256) (pagesOf f) i s' ∧
        ∀ m ∈ (network g (Spreads g f v)).sent i s',
          OnAirGenuine f (v % 256) (pagesOf f) ⟨i, s', m⟩ := by
    intro i a s s' hparty hok hin hst
    obtain ⟨himage, hsent⟩ :=
      imageParty_step hv (Nat.mod_lt _ (by decide)) (pagesOf_le f) hparty.1 hok hin hst
    refine ⟨⟨himage, fun hi => ?_⟩, hsent⟩
    obtain ⟨hheard, ht⟩ := genuine_step hin hst
    have hclient : Client f (v % 256) (pagesOf f) s := by
      have := hparty.1
      unfold ImageParty at this
      rwa [if_neg hi] at this
    unfold nodeStep at ht
    rw [if_neg hi] at ht
    exact (hparty.2 hi).step hclient hv hn (pagesOf_le f) hheard ht
  refine Protocol.inv_of_reach hinit ?_ hstep h
  exact fun _ _ _ hok => hok.1

/-- A state of the network in which the invariants hold, and keep holding. -/
structure Ongoing (g : RimeAddr) (f : File) (v : Nat) (N : Network) : Prop where
  reach : Reach (network g (Spreads g f v)).Init (network g (Spreads g f v)).Step RadioOk N
  version : 0 < v % 256
  pages : 0 < pagesOf f

namespace Ongoing

theorem follows (h : Ongoing g f v N) (hf : Follows g f v N N') : Ongoing g f v N' :=
  ⟨hf.reach h.reach, h.version, h.pages⟩

theorem image (h : Ongoing g f v N) :
    Protocol.Inv (ImageParty g f (v % 256) (pagesOf f)) (OnAirGenuine f (v % 256) (pagesOf f)) N :=
  image_inv h.version (h.reach.mono fun _ _ hok => hok.1)

theorem seeding (h : Ongoing g f v N) : Seeding f (v % 256) (pagesOf f) (N.node g).object := by
  have hparty := ((live_inv h.version h.pages h.reach).node g).1
  unfold ImageParty at hparty
  rwa [if_pos rfl] at hparty

theorem client (h : Ongoing g f v N) (hi : i ≠ g) : Client f (v % 256) (pagesOf f) (N.node i) := by
  have hparty := ((live_inv h.version h.pages h.reach).node i).1
  unfold ImageParty at hparty
  rwa [if_neg hi] at hparty

/-- A receiver with the gateway's `update_version` has accepted its profile. -/
theorem fetching (h : Ongoing g f v N) (hi : i ≠ g)
    (hupdate : (N.node i).updateVersion = v % 256) :
    Fetching f (v % 256) (pagesOf f) (N.node i).object := by
  refine (h.client hi).phase.resolve_left fun hwaiting => ?_
  have hzero : (N.node i).updateVersion = 0 := hwaiting.1.updateVersion
  have hversion := h.version
  omega

theorem live (h : Ongoing g f v N) (hi : i ≠ g) : Live (v % 256) (pagesOf f) (N.node i) :=
  ((live_inv h.version h.pages h.reach).node i).2 hi

end Ongoing

theorem nodeStep_gateway (g : RimeAddr) (env : Env) (e : Event) (s : Node) :
    nodeStep g g env e s = Tx.step env e s := if_pos rfl

theorem nodeStep_receiver (hi : i ≠ g) (env : Env) (e : Event) (s : Node) :
    nodeStep g i env e s = Rx.step env e s := if_neg hi

/-- A frame of the gateway to all, as a receiver hears it. -/
structure Offers (g : RimeAddr) (v n : Nat) (m : Msg) : Prop where
  src : m.src = g
  dst : m.dst = none
  fits : m.Fits
  summary : ∃ id, (Packetbuf.ofBytes m.bytes fun _ => 0).message = some (.summary ⟨v, n, id⟩)

/-- The gateway's profile passes the length test of its receiver. -/
theorem profileOf_passes {n : Nat} {s : Node} (hseed : Seeding f 1 n s.object) (hn : 0 < n)
    (hfit : n ≤ 106) (stale : Mem) :
    (Packetbuf.ofBytes ((profileOf s).bytes.take packetbufSize) stale).message = some (.profile
      (.ofBuf (.ofBytes ((profileOf s).bytes.take packetbufSize) stale))) ∧
      (DelugeMsgProfile.ofBuf (.ofBytes ((profileOf s).bytes.take packetbufSize) stale)).version =
        1 := by
  have hcount : s.pageCount = n := hseed.pageCount
  have hnum : (profileOf s).npages = n := by
    change s.pageCount % 256 = n
    omega
  obtain ⟨hver, hpages, hvector⟩ :=
    DelugeMsgProfile.ofBuf_bytes stale (profileOf s) packetbufSize (by decide)
  have hfirst := hvector 0 (by omega) (by decide)
  have hmark : (profileOf s).versionVector 0 = 1 := hseed.versions 0 hn
  have hone : (profileOf s).version = 1 := hseed.version
  have hlen : (Packetbuf.ofBytes ((profileOf s).bytes.take packetbufSize) stale).len = 4 + n := by
    rw [Packetbuf.len_ofBytes, List.length_take, DelugeMsgProfile.length_bytes, hnum]
    simp only [packetbufSize]
    omega
  have hcmd : (Packetbuf.ofBytes ((profileOf s).bytes.take packetbufSize) stale).byte 0 = 4 :=
    ofBytes_byte_zero stale _ _
  have hok : profileLengthOk (.ofBytes ((profileOf s).bytes.take packetbufSize) stale) := by
    refine ⟨?_, ?_⟩
    · rw [hlen]
      exact Nat.le_add_right 4 n
    · rw [hlen, hpages, hfirst, hnum, hmark, Nat.mod_eq_of_lt (by omega : n < 256)]
      exact Nat.le_of_eq (by simp)
  refine ⟨?_, hver.trans (by rw [hone])⟩
  unfold Packetbuf.message
  rw [hcmd, if_neg (by omega), if_neg (by decide), if_neg (by decide), if_neg (by decide),
    if_pos rfl, if_pos hok]

/-- It fits a frame. -/
theorem fits_profile (src : RimeAddr) {n : Nat} {s : Node} (hseed : Seeding f v n s.object)
    (hfit : n ≤ 106) : (⟨src, none, (profileOf s).bytes.take packetbufSize⟩ : Msg).Fits := by
  have hcount : s.pageCount = n := hseed.pageCount
  have hnum : (profileOf s).npages = n := by
    change s.pageCount % 256 = n
    omega
  have hlen : ((profileOf s).bytes.take packetbufSize).length ≤ 110 := by
    rw [List.length_take, DelugeMsgProfile.length_bytes, hnum]
    omega
  exact (Msg.fits_iff _).mpr hlen

/-- The gateway's next round offers its pages. -/
theorem Ongoing.offered (h : Ongoing g f v N) : ∃ N' m, Follows g f v N N' ∧
    (∀ k, k ≠ g → N'.node k = N.node k) ∧ WasSent N' m ∧ Offers g (v % 256) (pagesOf f) m := by
  have hcount := pagesOf_le f
  obtain ⟨s₁, hst₁, _, hadv, htimer, _, _⟩ := Tx.round_fresh quietEnv (N.node g)
  obtain ⟨N₁, hf₁, h₁⟩ := follows_tick (f := f) (v := v) rfl ((nodeStep_gateway ..).trans hst₁)
  have hseed := (h.follows hf₁).seeding
  rw [h₁.self] at hseed
  obtain ⟨s₂, id, hst₂, _, hmsg⟩ := Tx.summary_fires quietEnv g htimer hadv
  obtain ⟨N₂, hf₂, h₂⟩ := follows_tick (f := f) (v := v) rfl
    ((nodeStep_gateway ..).trans (h₁.self ▸ hst₂))
  refine ⟨N₂, _, hf₁.trans hf₂, fun k hk => (h₂.other k hk).trans (h₁.other k hk), h₂.new _ hmsg,
    rfl, rfl, fits_summary g _, id % 256, (message_summary_bytes _ _).trans ?_⟩
  have havailable : s₁.object.available = pagesOf f :=
    (Object.available_eq_iff.mpr hseed.allComplete).trans hseed.pageCount
  have hupdate : s₁.updateVersion = v % 256 := hseed.updateVersion
  simp only [havailable, hupdate, Nat.mod_mod, Nat.mod_eq_of_lt (by omega : pagesOf f < 256)]

/-- A receiver with an old version that is offered pages of a newer one says so. -/
theorem Ongoing.answered (h : Ongoing g f v N) (hi : i ≠ g)
    (hwaiting : Waiting f (pagesOf f) (N.node i).object) :
    ∃ N' m s, Follows g f v N N' ∧ (N'.node i).object = (N.node i).object ∧ WasSent N' m ∧
      m.src = i ∧ m.dst = none ∧ m.Fits ∧ s.version = 0 ∧
      (Packetbuf.ofBytes m.bytes fun _ => 0).message = some (.summary s) := by
  obtain ⟨N₁, m, hf₁, hother, hm, hsrc, hdst, hfits, id, hsummary⟩ := h.offered
  rw [← hother i hi] at hwaiting ⊢
  have hold : (N₁.node i).object.version = 0 := hwaiting.version
  have hupdate : (N₁.node i).object.updateVersion = 0 := hwaiting.updateVersion
  -- nothing has been heard in this round
  obtain ⟨s₂, hst₂, hobj₂, hadv₂⟩ := Rx.round_fresh quietEnv (N₁.node i)
  obtain ⟨N₂, hf₂, h₂⟩ := follows_tick (f := f) (v := v) rfl ((nodeStep_receiver hi ..).trans hst₂)
  rw [← hobj₂] at hold hupdate
  obtain ⟨s₃, hst₃, hobj₃, htimer, hadv₃⟩ := Rx.hears_newer { quietEnv with now := 0 } m.src
    (s := s₂) hsummary (hupdate.trans hold.symm)
    (Nat.lt_of_le_of_lt (Nat.le_of_eq hold) h.version)
  obtain ⟨N₃, hf₃, h₃⟩ := follows_hear (f := f) (v := v) 0 (h₂.old m hm) hfits
    (hsrc ▸ hi.symm) (.inl hdst) ((nodeStep_receiver hi ..).trans (h₂.self ▸ hst₃))
  obtain ⟨s₄, id', hst₄, hobj₄, hmsg⟩ := Rx.summary_fires quietEnv i htimer (hadv₃.trans hadv₂)
  obtain ⟨N₄, hf₄, h₄⟩ := follows_tick (f := f) (v := v) rfl
    ((nodeStep_receiver hi ..).trans (h₃.self ▸ hst₄))
  rw [← hobj₃] at hupdate
  have hupdate : s₃.updateVersion = 0 := hupdate
  refine ⟨N₄, _, _, ((hf₁.trans hf₂).trans hf₃).trans hf₄, ?_, h₄.new _ hmsg, rfl, rfl,
    fits_summary i _, ?_, message_summary_bytes _ _⟩
  · rw [h₄.self, hobj₄, hobj₃, hobj₂]
  · simp only [hupdate, Nat.zero_mod]

/-- The gateway answers it with its profile in the next round. -/
theorem Ongoing.published (h : Ongoing g f v N) (hone : v % 256 = 1) (hfit : pagesOf f ≤ 106)
    {m : Msg} (hm : WasSent N m) (hfits : m.Fits) (hsrc : m.src ≠ g) (hdst : m.dst = none)
    {sum : DelugeMsgSummary}
    (hsummary : (Packetbuf.ofBytes m.bytes fun _ => 0).message = some (.summary sum))
    (hold : sum.version = 0) :
    ∃ N' m' p, Follows g f v N N' ∧ (∀ k, k ≠ g → N'.node k = N.node k) ∧ WasSent N' m' ∧
      m'.src = g ∧ m'.dst = none ∧ m'.Fits ∧
      (Packetbuf.ofBytes m'.bytes fun _ => 0).message = some (.profile p) ∧ p.version = 1 := by
  have hseed := h.seeding
  have hversion : (N.node g).version = v % 256 := hseed.version
  have hupdate : (N.node g).updateVersion = v % 256 := hseed.updateVersion
  obtain ⟨s₁, hst₁, hprofile₁⟩ := Tx.hears_older { quietEnv with now := 0 } m.src
    (s := N.node g) hsummary (by omega) (hupdate.trans hversion.symm)
  obtain ⟨N₁, hf₁, h₁⟩ := follows_hear (f := f) (v := v) 0 hm hfits hsrc (.inl hdst)
    ((nodeStep_gateway ..).trans hst₁)
  obtain ⟨s₂, hst₂, _, hadv, _, htimer, hprofile₂⟩ := Tx.round_fresh quietEnv s₁
  obtain ⟨N₂, hf₂, h₂⟩ := follows_tick (f := f) (v := v) rfl
    ((nodeStep_gateway ..).trans (h₁.self ▸ hst₂))
  have hseed := ((h.follows hf₁).follows hf₂).seeding
  rw [h₂.self, hone] at hseed
  obtain ⟨s₃, hst₃, hmsg⟩ := Tx.profile_fires quietEnv g htimer hadv (hprofile₂.trans hprofile₁)
  obtain ⟨N₃, hf₃, h₃⟩ := follows_tick (f := f) (v := v) rfl
    ((nodeStep_gateway ..).trans (h₂.self ▸ hst₃))
  obtain ⟨hpass, hpversion⟩ := profileOf_passes hseed h.pages hfit fun _ => 0
  exact ⟨N₃, _, _, (hf₁.trans hf₂).trans hf₃,
    fun k hk => (h₃.other k hk).trans ((h₂.other k hk).trans (h₁.other k hk)),
    h₃.new _ hmsg, rfl, rfl, fits_profile g hseed hfit, hpass, hpversion⟩

/-- A receiver that has not accepted the profile can be brought to do so. -/
theorem Ongoing.profiled (h : Ongoing g f v N) (hi : i ≠ g) (hone : v % 256 = 1)
    (hfit : pagesOf f ≤ 106) (hwaiting : Waiting f (pagesOf f) (N.node i).object) :
    ∃ N', Follows g f v N N' ∧ (N'.node i).updateVersion = v % 256 := by
  obtain ⟨N₁, m, sum, hf₁, hobj, hm, hsrc, hdst, hfits, hold, hsummary⟩ := h.answered hi hwaiting
  obtain ⟨N₂, m', p, hf₂, hother, hm', hsrc', hdst', hfits', hprofile, hversion⟩ :=
    (h.follows hf₁).published hone hfit hm hfits (hsrc ▸ hi) hdst hsummary hold
  have hupdate : (N₂.node i).object.updateVersion = 0 := by
    rw [hother i hi, hobj]
    exact hwaiting.updateVersion
  obtain ⟨s, hst, hnew⟩ := Rx.hears_profile { quietEnv with now := 0 } m'.src
    (s := N₂.node i) hprofile (by rw [hversion]; exact Nat.lt_succ_of_le (Nat.le_of_eq hupdate)) rfl
  obtain ⟨N₃, hf₃, h₃⟩ := follows_hear (f := f) (v := v) 0 hm' hfits' (hsrc' ▸ hi.symm) (.inl hdst')
    ((nodeStep_receiver hi ..).trans hst)
  refine ⟨N₃, (hf₁.trans hf₂).trans hf₃, ?_⟩
  rw [h₃.self, hnew, hversion, hone]

/-- There is a time more than `T_HIGH` seconds after two others. -/
theorem exists_late (a b : UInt32) :
    ∃ now : UInt32, tHigh < Rx.secondsSince now a ∧ tHigh < Rx.secondsSince now b := by
  have ha := a.toNat_lt
  have hb := b.toNat_lt
  have hwait : (8320 : UInt32).toNat = 8320 := rfl
  by_cases hle : (b.toNat + (2 ^ 32 - a.toNat)) % 2 ^ 32 ≤ 2 ^ 31
  · refine ⟨b + 8320, ?_, ?_⟩ <;>
    · rw [Rx.secondsSince, UInt32.toNat_sub, UInt32.toNat_add, hwait]
      simp only [tHigh, clockSecond]
      omega
  · refine ⟨a + 8320, ?_, ?_⟩ <;>
    · rw [Rx.secondsSince, UInt32.toNat_sub, UInt32.toNat_add, hwait]
      simp only [tHigh, clockSecond]
      omega

/-- A receiver in the update asks for its current page, at its version and without the packets it has. -/
theorem Ongoing.requested (h : Ongoing g f v N) (hi : i ≠ g)
    (hfetching : Fetching f (v % 256) (pagesOf f) (N.node i).object)
    (hlt : (N.node i).currentRxPage < pagesOf f) :
    ∃ N' m r, Follows g f v N N' ∧ (N'.node i).object = (N.node i).object ∧ WasSent N' m ∧
      m.src = i ∧ m.dst = some g ∧ m.Fits ∧
      (Packetbuf.ofBytes m.bytes fun _ => 0).message = some (.request r) ∧ r.version = v % 256 ∧
      r.pagenum = (N.node i).currentRxPage ∧ ∀ k, k < nPkt → r.requestSet.testBit k =
        !((N.node i).object.marks (N.node i).currentRxPage).packetSet.testBit k := by
  obtain ⟨N₁, m, hf₁, hother, hm, hsrc, hdst, hfits, id, hsummary⟩ := h.offered
  -- an event of an earlier setting may have been handled: the event timer runs down first
  obtain ⟨s₂, hst₂, hobj₂, hrun⟩ := Rx.timer_expires quietEnv (N₁.node i)
  obtain ⟨N₂, hf₂, h₂⟩ := follows_tick (f := f) (v := v) rfl ((nodeStep_receiver hi ..).trans hst₂)
  have hlive := (h.follows (hf₁.trans hf₂)).live hi
  rw [hother i hi] at hobj₂
  rw [h₂.self] at hlive
  have hpage : s₂.currentRxPage = (N.node i).currentRxPage := congrArg Object.currentRxPage hobj₂
  rw [← hobj₂] at hfetching ⊢
  rw [← hpage] at hlt ⊢
  have hcount := pagesOf_le f
  have hpageCount : s₂.object.pageCount = pagesOf f := hfetching.pageCount
  have havailable : s₂.object.available = s₂.currentRxPage := by
    refine Lib.firstFailing_eq (hpageCount ▸ Nat.le_of_lt hlt) (fun j hj => ?_) fun _ => ?_
    · rw [hfetching.complete j (Nat.lt_trans hj hlt)]
      exact decide_eq_true hj
    · rw [hfetching.complete _ hlt]
      exact decide_eq_false (Nat.lt_irrefl _)
  obtain ⟨now, hrequest, hdata⟩ := exists_late (s₂.pages s₂.currentRxPage).lastRequest
    (s₂.pages s₂.currentRxPage).lastData
  obtain ⟨s₃, hst₃, hobj₃, htimer, hfrom⟩ := Rx.hears_offer { quietEnv with now := now } m.src
    hsummary hfetching.updateVersion.symm (havailable ▸ hlt) (Nat.le_of_eq hpageCount.symm) hrun
    (Nat.lt_of_le_of_lt hlive.high hrequest) (Nat.lt_of_le_of_lt hlive.high hdata)
  obtain ⟨N₃, hf₃, h₃⟩ := follows_hear (f := f) (v := v) now (h₂.old m hm) hfits (hsrc ▸ hi.symm)
    (.inl hdst) ((nodeStep_receiver hi ..).trans (h₂.self ▸ hst₃))
  obtain ⟨s₄, id', hst₄, hobj₄, hmsg⟩ := Rx.request_fires quietEnv i htimer
  obtain ⟨N₄, hf₄, h₄⟩ := follows_tick (f := f) (v := v) rfl
    ((nodeStep_receiver hi ..).trans (h₃.self ▸ hst₄))
  have hcur : s₃.currentRxPage = s₂.currentRxPage := congrArg Object.currentRxPage hobj₃
  rw [hfrom, hsrc, hobj₃, hcur] at hmsg
  refine ⟨N₄, _, _, ((hf₁.trans hf₂).trans hf₃).trans hf₄, ?_, h₄.new _ hmsg, rfl, rfl,
    fits_request i g _, message_request_bytes _ _, ?_,
    Nat.mod_eq_of_lt (Nat.lt_trans hlt (Nat.lt_succ_of_le hcount)),
    fun k hk => Object.testBit_requestSet _ (Nat.lt_trans hk (by decide))⟩
  · rw [h₄.self, hobj₄, hobj₃]
  · rw [hfetching.versions _ hlt, Nat.mod_mod]

/-- A packet of a page at the image's version, as it is heard from the gateway. -/
structure Serves (g : RimeAddr) (v page k : Nat) (m : Msg) (p : DelugeMsgPacket) : Prop where
  src : m.src = g
  dst : m.dst = none
  fits : m.Fits
  packet : (Packetbuf.ofBytes m.bytes fun _ => 0).message = some (.packet p)
  version : p.version = v
  pagenum : p.pagenum = page
  packetnum : p.packetnum = k
  crc : p.CrcOk

/-- The gateway sends the packets asked for. -/
theorem Ongoing.served (h : Ongoing g f v N) (hfit : pagesOf f ≤ 106) {m : Msg} (hm : WasSent N m)
    (hfits : m.Fits) (hsrc : m.src ≠ g) (hdst : m.dst = some g) {r : DelugeMsgRequest}
    (hrequest : (Packetbuf.ofBytes m.bytes fun _ => 0).message = some (.request r))
    (hversion : r.version = v % 256) (hlt : r.pagenum < pagesOf f)
    (hsome : ∃ k, k < nPkt ∧ r.requestSet.testBit k = true) :
    ∃ N', Follows g f v N N' ∧ (∀ k, k ≠ g → N'.node k = N.node k) ∧
      ∀ k, k < nPkt → r.requestSet.testBit k = true →
        ∃ m' p, WasSent N' m' ∧ Serves g (v % 256) r.pagenum k m' p := by
  have hseed := h.seeding
  have hanswers : (N.node g).object.Answers r := by
    refine ⟨hseed.pageCount ▸ hlt, hversion.trans hseed.version.symm, ?_⟩
    rw [Object.available_eq_iff.mpr hseed.allComplete, hseed.pageCount]
    exact Nat.le_of_lt hlt
  obtain ⟨s₁, hst₁, hobj₁, htimer⟩ := Tx.asked { quietEnv with now := 0 } m.src
    hrequest hanswers
  obtain ⟨N₁, hf₁, h₁⟩ := follows_hear (f := f) (v := v) 0 hm hfits hsrc (.inr hdst)
    ((nodeStep_gateway ..).trans hst₁)
  have hseed₁ := (h.follows hf₁).seeding
  rw [h₁.self] at hseed₁
  -- the page number is below 128
  have hpage : s₁.currentTxPage = r.pagenum := by
    have htx : s₁.currentTxPage = if (r.pagenum : Int) = (N.node g).object.currentTxPage then
        (N.node g).object.currentTxPage else toInt8 r.pagenum := congrArg Object.currentTxPage hobj₁
    rw [htx, toInt8_of_lt (by omega)]
    split
    · exact (‹_› : (r.pagenum : Int) = _).symm
    · rfl
  have hset : ∀ k, r.requestSet.testBit k = true → s₁.txSet.testBit k = true := by
    intro k hbit
    have htx : s₁.txSet = if (r.pagenum : Int) = (N.node g).object.currentTxPage then
        (N.node g).object.txSet ||| r.requestSet else r.requestSet := congrArg Object.txSet hobj₁
    rw [htx]
    split
    · rw [Nat.testBit_or, hbit, Bool.or_true]
    · exact hbit
  have hq : s₁.object.Queued := by
    obtain ⟨k, _, hbit⟩ := hsome
    refine ⟨?_, testBit_ne_zero (hset k hbit)⟩
    change 0 ≤ s₁.currentTxPage
    rw [hpage]
    exact Int.natCast_nonneg _
  obtain ⟨s₂, hst₂, hmsgs⟩ := Tx.page_fires quietEnv g htimer hq
  obtain ⟨N₂, hf₂, h₂⟩ := follows_tick (f := f) (v := v) rfl
    ((nodeStep_gateway ..).trans (h₁.self ▸ hst₂))
  refine ⟨N₂, hf₁.trans hf₂, fun k hk => (h₂.other k hk).trans (h₁.other k hk), ?_⟩
  intro k hk hbit
  refine ⟨_, (packetOf s₁ s₁.currentTxPage.toNat (s₁.sendBuffer quietEnv) k).heard,
    h₂.new _ (hmsgs k hk (hset k hbit)), ?_⟩
  have hnat : s₁.currentTxPage.toNat = r.pagenum := by rw [hpage, Int.toNat_natCast]
  exact {
    src := rfl
    dst := rfl
    fits := fits_packet g _ _ _ _
    packet := message_packet_bytes _ _ (packetOf_payload _ _ _ _)
    version := by
      change (s₁.object.marks s₁.currentTxPage.toNat).version % 256 = v % 256
      rw [hnat, hseed₁.versions _ hlt, Nat.mod_mod]
    pagenum := by
      change s₁.currentTxPage.toNat % 256 = r.pagenum
      rw [hnat]
      omega
    packetnum := Nat.mod_eq_of_lt (Nat.lt_trans hk (by decide))
    crc := rfl }

/-- A receiver that is in the update stays in it. -/
theorem Ongoing.update_kept (h : Ongoing g f v N) (hf : Follows g f v N N') (hi : i ≠ g)
    (hupdate : (N.node i).updateVersion = v % 256) : (N'.node i).updateVersion = v % 256 := by
  refine (Later.invariant (I := fun N => Ongoing g f v N ∧ (N.node i).updateVersion = v % 256) ?_ hf
    ⟨h, hupdate⟩).2
  intro ja N N' hN hok hst
  refine ⟨⟨.step hN.1.reach hok hst, h.version, h.pages⟩, ?_⟩
  obtain ⟨j, a⟩ := ja
  obtain ⟨s', hlocal, hin, rfl⟩ := hst
  by_cases hij : i = j
  · subst hij
    obtain ⟨hheard, ht⟩ := genuine_step (hN.1.image.consumed hin) hlocal
    rw [nodeStep_receiver hi] at ht
    have hnew : s'.updateVersion = v % 256 := ((hN.1.fetching hi hN.2).change h.version (pagesOf_le f)
      hok.1 hheard (Rx.step_change ht)).updateVersion
    simpa only [Function.update_self] using hnew
  · simpa only [Function.update_of_ne hij] using hN.2

/-- A receiver that has the gateway's version keeps it. -/
theorem Ongoing.version_kept (h : Ongoing g f v N) (hf : Follows g f v N N') (hi : i ≠ g)
    (hversion : (N.node i).version = v % 256) : (N'.node i).version = v % 256 := by
  refine (Later.invariant (I := fun N => Ongoing g f v N ∧ (N.node i).version = v % 256) ?_ hf
    ⟨h, hversion⟩).2
  intro ja N N' hN hok hst
  exact ⟨⟨.step hN.1.reach hok hst, h.version, h.pages⟩,
    Deluge.version_kept h.version hN.1.image hst hi hN.2⟩

/-- The packets of a page are heard one after the other. -/
theorem Ongoing.filled (hi : i ≠ g) {o : Object}
    (hversion : (o.marks o.currentRxPage).version = v % 256) (ks : List Nat) {done : List Nat}
    (hks : ∀ k ∈ ks, k < nPkt ∧ ∃ m p, WasSent N m ∧ Serves g (v % 256) o.currentRxPage k m p)
    (hdone : o.Delivered done (N.node i).object) :
    ∃ N' done', Follows g f v N N' ∧ o.Delivered done' (N'.node i).object ∧
      ∀ k, k ∈ ks ∨ k ∈ done → k ∈ done' := by
  induction ks generalizing N done with
  | nil =>
    refine ⟨N, done, .refl N, hdone, ?_⟩
    rintro k (hk | hk)
    · cases hk
    · exact hk
  | cons k ks ih =>
    obtain ⟨hk, m, p, hm, hserves⟩ := hks k List.mem_cons_self
    obtain ⟨s, hst, hobj⟩ := Rx.hears_packet { quietEnv with now := 0 } m.src
      (s := N.node i) hserves.packet (hserves.packetnum.symm ▸ hk)
    obtain ⟨N₁, hf₁, h₁⟩ := follows_hear (g := g) (f := f) (v := v) 0 hm hserves.fits
      (hserves.src ▸ hi.symm) (.inl hserves.dst) ((nodeStep_receiver hi ..).trans hst)
    have hgenuine : o.Genuine p :=
      ⟨hserves.pagenum, hserves.version.trans hversion.symm, hserves.packetnum.symm ▸ hk, hserves.crc⟩
    have hnext := hdone.receive { quietEnv with now := 0 } hgenuine
    rw [← hobj, ← h₁.self, hserves.packetnum] at hnext
    obtain ⟨N₂, done', hf₂, hdone', hall⟩ := ih (fun k hk => by
      obtain ⟨hk, m, p, hm, hserves⟩ := hks k (List.mem_cons_of_mem _ hk)
      exact ⟨hk, m, p, h₁.old m hm, hserves⟩) hnext
    refine ⟨N₂, done', hf₁.trans hf₂, hdone', ?_⟩
    rintro j (hj | hj)
    · rcases List.mem_cons.mp hj with rfl | hj
      · exact hall _ (.inr List.mem_cons_self)
      · exact hall _ (.inl hj)
    · exact hall _ (.inr (List.mem_cons_of_mem _ hj))

/-- A receiver can be brought from its current page to a later one. -/
theorem Ongoing.page (h : Ongoing g f v N) (hfit : pagesOf f ≤ 106) (hi : i ≠ g)
    (hupdate : (N.node i).updateVersion = v % 256)
    (hlt : (N.node i).currentRxPage < pagesOf f) :
    ∃ N', Follows g f v N N' ∧ (N'.node i).updateVersion = v % 256 ∧
      (N.node i).currentRxPage < (N'.node i).currentRxPage := by
  have hfetching := h.fetching hi hupdate
  obtain ⟨hset_le, hset⟩ := (h.live hi).missing hupdate hlt
  obtain ⟨N₁, m, r, hf₁, hobj, hm, hsrc, hdst, hfits, hrequest, hversion, hpage, hbits⟩ :=
    h.requested hi hfetching hlt
  have hmissing : ∃ k, k < nPkt ∧ r.requestSet.testBit k = true := by
    by_contra hnone
    refine hset (Object.eq_allPackets hset_le fun k hk => ?_)
    cases hbit : ((N.node i).object.marks (N.node i).currentRxPage).packetSet.testBit k with
    | true => rfl
    | false => exact absurd ⟨k, hk, by rw [hbits k hk, hbit]; rfl⟩ hnone
  obtain ⟨N₂, hf₂, hother, hserved⟩ := (h.follows hf₁).served hfit hm hfits
    (hsrc ▸ hi) hdst hrequest hversion (hpage ▸ hlt) hmissing
  have hobj₂ : (N₂.node i).object = (N.node i).object := by rw [hother i hi, hobj]
  let missing := (List.range nPkt).filter fun k => r.requestSet.testBit k
  let had := (List.range nPkt).filter fun k => !r.requestSet.testBit k
  have hfilling : (N.node i).object.Filling had (N₂.node i).object := by
    rw [hobj₂]
    exact {
      current := rfl
      version := rfl
      missing := (hfetching.complete _ hlt).trans (decide_eq_false (Nat.lt_irrefl _))
      set_le := hset_le
      bits := by
        intro k hk
        obtain ⟨hk, hbit⟩ := List.mem_filter.mp hk
        rw [hbits k (List.mem_range.mp hk), Bool.not_not] at hbit
        exact hbit
      notAll := fun _ => hset }
  obtain ⟨N₃, done, hf₃, hdone, hall⟩ := Ongoing.filled (g := g) (f := f) (v := v) hi
    (hfetching.versions _ hlt) missing (fun k hk => by
      obtain ⟨hk, hbit⟩ := List.mem_filter.mp hk
      refine ⟨List.mem_range.mp hk, ?_⟩
      have hk := hserved k (List.mem_range.mp hk) hbit
      rwa [hpage] at hk) (.inr hfilling)
  have hf := (hf₁.trans hf₂).trans hf₃
  have hupdate₃ := h.update_kept hf hi hupdate
  refine ⟨N₃, hf, hupdate₃, ?_⟩
  have hcomplete := hdone.complete fun k hk => hall k (by
    cases hbit : r.requestSet.testBit k with
    | true => exact .inl (List.mem_filter.mpr ⟨List.mem_range.mpr hk, hbit⟩)
    | false => exact .inr (List.mem_filter.mpr ⟨List.mem_range.mpr hk, by rw [hbit]; rfl⟩))
  exact of_decide_eq_true ((((h.follows hf).fetching hi hupdate₃).complete _ hlt).symm.trans hcomplete)

/-- A receiver in the update can be brought to its end. -/
theorem Ongoing.finished (h : Ongoing g f v N) (hfit : pagesOf f ≤ 106) (hi : i ≠ g)
    (hupdate : (N.node i).updateVersion = v % 256) :
    ∃ N', Follows g f v N N' ∧ (N'.node i).version = v % 256 := by
  -- by the number of pages that are missing
  generalize hd : pagesOf f - (N.node i).currentRxPage = d
  induction d using Nat.strong_induction_on generalizing N with
  | _ d ih =>
    rcases Nat.lt_or_eq_of_le (h.fetching hi hupdate).current with hlt | hfull
    · have hlt : (N.node i).currentRxPage < pagesOf f := hlt
      obtain ⟨N₁, hf₁, hupdate₁, hmore⟩ := h.page hfit hi hupdate hlt
      obtain ⟨N₂, hf₂, hversion⟩ := ih _ (by omega) (h.follows hf₁) hupdate₁ rfl
      exact ⟨N₂, hf₁.trans hf₂, hversion⟩
    · exact ⟨N, .refl N, (h.live hi).committed hupdate hfull⟩

/-- Every receiver can be updated. -/
theorem Ongoing.updated (h : Ongoing g f v N) (hone : v % 256 = 1) (hfit : pagesOf f ≤ 106)
    (hi : i ≠ g) : ∃ N', Follows g f v N N' ∧ (N'.node i).version = v % 256 := by
  rcases (h.client hi).phase with ⟨hwaiting, _⟩ | hfetching
  · obtain ⟨N₁, hf₁, hupdate⟩ := h.profiled hi hone hfit hwaiting
    obtain ⟨N₂, hf₂, hversion⟩ := (h.follows hf₁).finished hfit hi hupdate
    exact ⟨N₂, hf₁.trans hf₂, hversion⟩
  · exact h.finished hfit hi hfetching.updateVersion

/-- One after the other. -/
theorem Ongoing.all_updated (h : Ongoing g f v N) (hone : v % 256 = 1) (hfit : pagesOf f ≤ 106)
    (is : List RimeAddr) :
    ∃ N', Follows g f v N N' ∧ ∀ i ∈ is, i ≠ g → (N'.node i).version = v % 256 := by
  induction is with
  | nil => exact ⟨N, .refl N, fun _ hi => by cases hi⟩
  | cons j is ih =>
    obtain ⟨N₁, hf₁, hall⟩ := ih
    by_cases hj : j = g
    · refine ⟨N₁, hf₁, fun i hi hne => ?_⟩
      rcases List.mem_cons.mp hi with rfl | hi
      · exact absurd hj hne
      · exact hall i hi hne
    · obtain ⟨N₂, hf₂, hversion⟩ := (h.follows hf₁).updated hone hfit hj
      refine ⟨N₂, hf₁.trans hf₂, fun i hi hne => ?_⟩
      rcases List.mem_cons.mp hi with rfl | hi
      · exact hversion
      · exact (h.follows hf₁).version_kept hf₂ hne (hall i hi hne)

end

/-! ## Profiles that no receiver passes on -/

/-- A profile of the image is heard and passes the test of its receiver, and there is a page to fetch. -/
def Updatable (f : File) (v : Nat) : Prop :=
  v % 256 = 1 ∧ 0 < pagesOf f ∧ pagesOf f ≤ 106

/-- A receiver that is never updated: it has all pages of the old version, or there are none. -/
structure Stuck (f : File) (n : Nat) (s : Node) : Prop where
  version : s.version = 0
  waiting : 0 < n → Waiting f n s.object

/-- A frame that can be heard holds no profile, if there is a page. -/
def NoProfile (n : Nat) (m : Msg) : Prop :=
  0 < n → m.Fits → ∀ stale p, (Packetbuf.ofBytes m.bytes stale).message ≠ some (.profile p)

section

variable {g i : RimeAddr} {f : File} {v n : Nat} {env : Env} {e : Event} {s s' : Node}
  {N N' : Network}

theorem Stuck.step (h : Stuck f n s) (hv : 0 < v)
    (hheard : ∀ msg, e.message = some msg → Genuine f v n msg)
    (hprofile : 0 < n → ∀ m, e.message ≠ some (.profile m))
    (hst : Rx.step env e s = some s') : Stuck f n s' := by
  have hchange := Rx.step_change hst
  refine ⟨?_, fun hn => ?_⟩
  · have hzero : s.object.version = 0 := h.version
    have hcommit : ∀ p, e.message = some (.packet p) → s.object.Completes p → False := by
      intro p hm hc
      have hlt := (hheard _ hm).2.1
      have hcomplete := (h.waiting (Nat.lt_of_le_of_lt (Nat.zero_le _) hlt)).complete _ hlt
      rw [hc.1.1] at hcomplete
      exact Bool.false_ne_true (hc.1.2.2.symm.trans hcomplete)
    suffices hsame : s'.object.version = 0 from hsame
    generalize s'.object = o at hchange ⊢
    cases hchange with
    | commit hm hc _ => exact (hcommit _ hm hc).elim
    | _ => exact hzero
  · rcases (h.waiting hn).change hv hheard hchange with hwaiting | ⟨⟨m, _, hm, _⟩, _⟩
    · exact hwaiting
    · exact absurd hm (hprofile hn m)

/-- The gateway's profiles do not fit or do not pass. -/
theorem Seeding.noProfile (h : Seeding f (v % 256) (pagesOf f) s.object) (hv : 0 < v % 256)
    (hno : ¬ Updatable f v) (hpages : 0 < pagesOf f) {stale : Mem}
    (hok : profileLengthOk (.ofBytes ((profileOf s).bytes.take packetbufSize) stale)) {m : Msg}
    (hfits : m.Fits) {stale' : Mem} (hm : (Packetbuf.ofBytes m.bytes stale').message = some (.profile
      (.ofBuf (.ofBytes ((profileOf s).bytes.take packetbufSize) stale)))) : False := by
  have hcount : s.pageCount = pagesOf f := h.pageCount
  have hle := pagesOf_le f
  obtain ⟨_, hnum, hvector⟩ := profileOf_told (v := v % 256) h.version (Nat.mod_lt _ (by decide))
    (fun i hi => h.versions i (hcount ▸ hi)) hok
  obtain ⟨hsame, -, hpass⟩ := message_profile hm
  have hlen := hpass.2
  rw [← hsame, hnum, hvector hv 0 (by omega), Packetbuf.len_ofBytes, hcount] at hlen
  have hshort : m.bytes.length ≤ 110 := by
    have hfits := m.fits_iff.mp hfits
    split at hfits <;> omega
  simp only [sizeofProfile] at hlen
  refine hno ⟨?_, hpages, ?_⟩
  · by_contra hne
    have hlen' := hok.2
    have hmul : pagesOf f * 2 ≤ pagesOf f * (v % 256) := Nat.mul_le_mul_left _ (by omega)
    rw [hnum, hvector hv 0 (by omega), Packetbuf.len_ofBytes, List.length_take,
      DelugeMsgProfile.length_bytes, show (profileOf s).npages = s.pageCount % 256 from rfl,
      hcount] at hlen'
    simp only [sizeofProfile, packetbufSize] at hlen'
    omega
  · have hmul : pagesOf f ≤ pagesOf f * (v % 256) := Nat.le_mul_of_pos_right _ hv
    omega

theorem stuck_inv (hv : 0 < v % 256) (hno : ¬ Updatable f v)
    (h : Reach (network g (Spreads g f v)).Init (network g (Spreads g f v)).Step RadioOk N) :
    Protocol.Inv
      (fun i s => ImageParty g f (v % 256) (pagesOf f) i s ∧ (i ≠ g → Stuck f (pagesOf f) s))
      (fun x => OnAirGenuine f (v % 256) (pagesOf f) x ∧ NoProfile (pagesOf f) x.msg) N := by
  have hinit : ∀ i s, Spreads g f v i s →
      ImageParty g f (v % 256) (pagesOf f) i s ∧ (i ≠ g → Stuck f (pagesOf f) s) := by
    intro i s hs
    refine ⟨imageParty_init hs, fun hi => ?_⟩
    have hparty := imageParty_init hs
    unfold ImageParty at hparty
    rw [if_neg hi] at hparty
    obtain ⟨e, _, hs⟩ := hs
    rw [if_neg hi] at hs
    obtain ⟨f', _, hs⟩ := hs
    have hboot : Rx.Booted f' 0 s := ⟨e, hs⟩
    have hupdate : s.object.updateVersion = 0 := hboot.fresh.updateVersion
    refine ⟨hboot.fresh.version, fun _ => ?_⟩
    rcases hparty.phase with ⟨hwaiting, _⟩ | hfetching
    · exact hwaiting
    · have haim := hfetching.updateVersion
      omega
  have hstep : ∀ i (a : NetEvent) s s',
      (ImageParty g f (v % 256) (pagesOf f) i s ∧ (i ≠ g → Stuck f (pagesOf f) s)) →
      (a.event.1.FilesOk ∧ ∀ m, a.input = some m → m.Fits) →
      (∀ m, a.input = some m → ∃ x : Sent RimeAddr Node Msg,
        (OnAirGenuine f (v % 256) (pagesOf f) x ∧ NoProfile (pagesOf f) x.msg) ∧ x.msg = m) →
      (network g (Spreads g f v)).step i a s s' →
      (ImageParty g f (v % 256) (pagesOf f) i s' ∧ (i ≠ g → Stuck f (pagesOf f) s')) ∧
        ∀ m ∈ (network g (Spreads g f v)).sent i s',
          OnAirGenuine f (v % 256) (pagesOf f) ⟨i, s', m⟩ ∧ NoProfile (pagesOf f) m := by
    intro i a s s' hparty hok hin hst
    have hgenuine : ∀ m, a.input = some m → ∃ x, OnAirGenuine f (v % 256) (pagesOf f) x ∧ x.msg = m :=
      fun m hm => by
        obtain ⟨x, hx, hxm⟩ := hin m hm
        exact ⟨x, hx.1, hxm⟩
    obtain ⟨himage, hsent⟩ :=
      imageParty_step hv (Nat.mod_lt _ (by decide)) (pagesOf_le f) hparty.1 hok.1 hgenuine hst
    obtain ⟨hheard, ht⟩ := genuine_step hgenuine hst
    have himage₀ := hparty.1
    unfold ImageParty at himage₀
    unfold nodeStep at ht
    refine ⟨⟨himage, fun hi => ?_⟩, fun m hm => ⟨hsent m hm, fun hn hfits stale p hp => ?_⟩⟩
    · rw [if_neg hi] at ht
      refine (hparty.2 hi).step hv hheard (fun hn p hp => ?_) ht
      have hheard : ∀ m, a.input = some m → ∃ x : Sent RimeAddr Node Msg,
          (NoProfile (pagesOf f) x.msg ∧ x.msg.Fits) ∧ x.msg = m := fun m hm => by
        obtain ⟨x, hx, rfl⟩ := hin m hm
        exact ⟨x, ⟨hx.2, hok.2 _ hm⟩, rfl⟩
      obtain ⟨x, stale, ⟨hno, hfits⟩, hmsg⟩ := NetEvent.heard hheard hst.1 hp
      exact hno hn hfits stale p hmsg
    · split at ht
      · rename_i hi
        rw [if_pos hi] at himage₀
        cases Tx.step_told ht hm hp with
        | profile _ _ hok => exact himage₀.noProfile hv hno hn hok hfits hp
      · rename_i hi
        rw [if_neg hi] at himage₀
        cases Rx.step_told ht hm hp with
        | profile _ hset _ => exact Bool.false_ne_true (himage₀.profileTimer.symm.trans hset)
  refine Protocol.inv_of_reach hinit ?_ hstep h
  exact fun _ _ _ hok => hok

end

end Adler.Deluge
