/-
  How a gateway that holds the whole image serves a page. `handle_request` takes the page number from
  a `uint8_t` to the `int8_t` `current_tx_page`, and `tx_callback` acts only when that is not negative
  and `tx_set` is not zero.

  * `OnlyAsks`, `requested`: a sequence of requests for one page and the union of their sets.
  * `ServesAsked`: one packet, of the file's bytes, for each number asked for; then MAINTAIN.
  * `requests_served_iff`: that is what `tx_timer` brings, whatever the local buffer held, exactly when
    the page number is below 128, something is queued and the packets asked for can be read.
-/
import Adler.Deluge.Awake
import Adler.Deluge.Payload

namespace Adler.Deluge

open Lib (Mem Reach Always runList)
open Node

/-- The set of the request the event delivers. -/
def Event.requestSet (e : Event) : Nat :=
  match e.message with
  | some (.request m) => m.requestSet
  | _ => 0

/-- The union of the request sets. -/
def requested : List (Env × Event) → Nat
  | [] => 0
  | a :: as => a.2.requestSet ||| requested as

/-- The event delivers a request. -/
def Event.Asks (e : Event) : Prop := ∃ m, e.message = some (.request m)

/-- The event delivers a request for page `p` in version `v`, or no message at all, and `tx_timer` does
    not run down. -/
def OnlyAsks (p v : Nat) (e : Event) : Prop :=
  match e.message with
  | some (.request m) => m.pagenum = p ∧ m.version = v
  | some _ => False
  | none => e.isTxTimer = false

/-- The packets of page `p` that are queued for sending. -/
def Object.queuedFor (o : Object) (p : Nat) : Nat :=
  if (p : Int) = o.currentTxPage then o.txSet else 0

/-- A packet as whoever hears it reads it. -/
def DelugeMsgPacket.heard (m : DelugeMsgPacket) : DelugeMsgPacket :=
  ⟨m.version % 256, m.pagenum % 256, m.packetnum % 256, m.crc, m.objectId % 256, m.payload⟩

/-- The packet in a packet buffer. -/
def packetIn (bytes : List UInt8) : Option DelugeMsgPacket :=
  match (Packetbuf.ofBytes bytes fun _ => 0).message with
  | some (.packet m) => some m
  | _ => none

/-- The packets broadcast by the latest event, in order. -/
def Node.packets (s : Node) : List DelugeMsgPacket := s.broadcasts.filterMap packetIn

/-- For each packet number of `set` there is exactly one packet of page `p`, with the bytes of the file
    and their CRC, and the node is back in MAINTAIN with nothing to send. -/
structure ServesAsked (p set : Nat) (f : File) (s : Node) : Prop where
  packets : ∀ k < nPkt, set.testBit k = true →
    ∃ m, (s.packets.filter fun m => m.pagenum = p ∧ m.packetnum = k) = [m] ∧ m.CrcOk ∧
      m.payload = Mem.read f.data (p * sPage + sPkt * k) sPkt
  txSet : s.txSet = 0
  state : s.delugeState = .maintain

/-! ## The packets of a page -/

theorem packetIn_bytes (m : DelugeMsgPacket) (h : m.payload.length = sPkt) :
    packetIn m.bytes = some m.heard := by
  unfold packetIn
  rw [message_packet_bytes _ m h]
  rfl

/-- What `send_page` broadcasts, as it is heard. -/
theorem sendPage_packets (env : Env) (i : Nat) (s : Node) (h : s.effects = []) :
    (sendPage env i s).packets = ((List.range nPkt).filter fun k => s.txSet.testBit k).map fun k =>
      (packetOf s i (readFile env i env.stack s.file).2.1 k).heard := by
  have hnone : s.broadcasts = [] := by simp [Node.broadcasts, h]
  rw [Node.packets, sendPage_broadcasts, hnone, List.nil_append, List.filterMap_map,
    ← List.filterMap_eq_map]
  apply List.filterMap_congr
  intro k _
  exact packetIn_bytes _ (packetOf_payload s i _ k)

/-- Among them there is one for each number asked for. -/
theorem sendPage_packet {env : Env} {p : Nat} {s : Node} (h : s.effects = []) (hp : p < 256) {k : Nat}
    (hk : k < nPkt) (hbit : s.txSet.testBit k = true) :
    ((sendPage env p s).packets.filter fun m => m.pagenum = p ∧ m.packetnum = k) =
      [(packetOf s p (readFile env p env.stack s.file).2.1 k).heard] := by
  have hone : (((List.range nPkt).filter fun k => s.txSet.testBit k).filter fun j => j == k) =
      [k] := by
    rw [List.filter_beq, List.count_eq_one_of_mem (List.nodup_range.filter _)
      (List.mem_filter.mpr ⟨List.mem_range.mpr hk, hbit⟩)]
    rfl
  rw [sendPage_packets env p s h, List.filter_map]
  rw [← List.map_singleton (f := fun k =>
    (packetOf s p (readFile env p env.stack s.file).2.1 k).heard), ← hone]
  congr 1
  apply List.filter_congr
  intro j hj
  obtain ⟨hj, -⟩ := List.mem_filter.mp hj
  have hj := List.mem_range.mp hj
  have hpage : (packetOf s p (readFile env p env.stack s.file).2.1 j).heard.pagenum = p :=
    Nat.mod_eq_of_lt hp
  have hnum : (packetOf s p (readFile env p env.stack s.file).2.1 j).heard.packetnum = j :=
    Nat.mod_eq_of_lt (Nat.lt_trans hj (by decide))
  simp only [Function.comp_apply, hpage, hnum, true_and]
  rfl

/-! ## The requests -/

theorem toInt8_of_lt {n : Nat} (h : n < 128) : toInt8 n = n := by
  unfold toInt8
  rw [if_pos h]

theorem toInt8_neg {n : Nat} (h : 128 ≤ n) (hb : n < 256) : toInt8 n < 0 := by
  unfold toInt8
  rw [if_neg (by omega)]
  omega

theorem toInt8_lt (n : Nat) (hb : n < 256) : toInt8 n < 128 := by
  unfold toInt8
  split <;> omega

theorem transition_txTimer (st : DelugeState) (s : Node) :
    (transition st s).txTimer = if s.delugeState = .tx ∧ st ≠ .tx then false else s.txTimer := by
  unfold transition
  cases st <;> cases hs : s.delugeState <;> simp [stopRx]

/-- `tx_timer` is pending in TX only. -/
def TxTimed (s : Node) : Prop := s.txTimer = true → s.delugeState = .tx

theorem transition_txTimed {s : Node} (h : TxTimed s) : TxTimed (transition .maintain s) := by
  intro ht
  rw [transition_txTimer] at ht
  split at ht
  · cases ht
  · rename_i hno
    exact absurd ⟨h ht, by decide⟩ hno

namespace Object

variable {o : Object} {p : Nat} {m : DelugeMsgRequest}

/-- A request adds its set to the packets queued for the page, as long as the number of the page fits
    an `int8_t`. -/
theorem queuedFor_queue (hp : p < 128) (hm : m.pagenum = p) :
    (o.queue m).queuedFor p = o.queuedFor p ||| m.requestSet := by
  unfold queuedFor queue
  rw [hm]
  by_cases hsame : (p : Int) = o.currentTxPage
  · simp only [if_pos hsame]
  · simp only [if_neg hsame, toInt8_of_lt hp, if_true, Nat.zero_or]

/-- Afterwards `current_tx_page` is the page number as an `int8_t`. -/
theorem currentTxPage_queue (htx : o.currentTxPage < 128) (hm : m.pagenum = p) :
    (o.queue m).currentTxPage = toInt8 p := by
  unfold queue
  rw [hm]
  dsimp only
  split
  · rename_i hsame
    rw [toInt8_of_lt (by omega), hsame]
  · rfl

theorem next_quiet {env : Env} {e : Event} {pending : Bool} (hm : e.message = none)
    (he : e.isTxTimer = false) : o.next env e pending = o := by
  match e with
  | .receive sender b =>
    have hm : b.message = none := hm
    simp only [next, hm]
  | .txTimer => cases he
  | .rxExpires | .rxTimer | .summaryTimer | .profileTimer | .round => rfl

end Object

namespace Tx

variable {env : Env} {e : Event} {p : Nat} {m : DelugeMsgRequest} {s s' t : Node}

/-- A request that is answered. -/
theorem step_request (hm : e.message = some (.request m)) (ha : s.object.Answers m)
    (h : step env e s = some s') : s'.object = s.object.queue m ∧ s'.delugeState = .tx := by
  have hobj := step_refines h
  rw [Object.next_some hm, Object.handle, if_pos ha] at hobj
  refine ⟨hobj, ?_⟩
  cases e with
  | receive sender b =>
    have hb : b.message = some (.request m) := hm
    have h : commandDispatcherWith handleSummary handlePacket env sender b
      { s with effects := [] } = some s' := h
    rw [commandDispatcherWith_eq, hb] at h
    rw [← Option.some.inj h]
    unfold handleRequest
    rw [if_neg (by exact Nat.not_le.mpr ha.1)]
    dsimp only
    rw [if_pos (by exact ha.2)]
    exact transition_state _ _
  | _ => cases hm

theorem sendRequest_txTimed (h : TxTimed s) : TxTimed (sendRequest s) := by
  unfold sendRequest limitRequests
  have hcounted : TxTimed { unicastRequest s with
      nrequests := ((unicastRequest s).nrequests + 1) % 256 } := h
  generalize { unicastRequest s with
    nrequests := ((unicastRequest s).nrequests + 1) % 256 } = u at hcounted ⊢
  dsimp only
  split
  · exact transition_txTimed hcounted
  · exact hcounted

/-- An event without a message, other than `tx_timer`. -/
theorem step_quiet (hm : e.message = none) (he : e.isTxTimer = false)
    (h : step env e s = some s') : s'.object = s.object ∧ (TxTimed s → TxTimed s') := by
  refine ⟨(step_refines h).trans (Object.next_quiet hm he), fun htimed => ?_⟩
  match e with
  | .receive sender b =>
    have hm : b.message = none := hm
    have h : commandDispatcherWith handleSummary handlePacket env sender b
      { s with effects := [] } = some s' := h
    rw [commandDispatcherWith_eq, hm] at h
    cases h
    exact htimed
  | .txTimer => cases he
  | .rxExpires =>
    cases h
    exact htimed
  | .rxTimer =>
    cases h
    dsimp only
    split
    · exact sendRequest_txTimed htimed
    · exact htimed
  | .summaryTimer =>
    cases h
    dsimp only
    split
    · unfold advertiseSummary
      split <;> exact htimed
    · exact htimed
  | .profileTimer =>
    cases h
    dsimp only
    split
    · unfold sendProfile
      split <;> exact htimed
    · exact htimed
  | .round =>
    cases h
    exact htimed

/-- What the requests for page `p` and the quiet events between them leave of the state `s`. -/
structure Collected (p set : Nat) (s t : Node) : Prop where
  object : t.object =
    { s.object with txSet := t.object.txSet, currentTxPage := t.object.currentTxPage }
  queued : p < 128 → t.object.queuedFor p = s.object.queuedFor p ||| set
  int8 : t.object.currentTxPage < 128

/-- A request for page `p` has come in. -/
structure Aimed (p : Nat) (t : Node) : Prop where
  page : t.object.currentTxPage = toInt8 p
  timed : TxTimed t

theorem Collected.refl (htx : s.object.currentTxPage < 128) : Collected p 0 s s where
  object := rfl
  queued := fun _ => (Nat.or_zero _).symm
  int8 := htx

theorem Collected.trans {set set' : Nat} (h : Collected p set s s') (h' : Collected p set' s' t) :
    Collected p (set ||| set') s t where
  object := by rw [h'.object, h.object]
  queued := fun hp => by rw [h'.queued hp, h.queued hp, Nat.or_assoc]
  int8 := h'.int8

section

variable {a : Env × Event}

/-- Every page is there, and `p` is one of them. -/
def Holds (p : Nat) (o : Object) : Prop := o.AllComplete ∧ p < o.pageCount

theorem Collected.holds {set : Nat} (h : Collected p set s t) (hs : Holds p s.object) :
    Holds p t.object := by
  rw [h.object]
  exact hs

theorem Holds.answers (h : Holds p s.object) (hpage : m.pagenum = p)
    (hversion : m.version = s.version) : s.object.Answers m := by
  refine ⟨hpage ▸ h.2, hversion, ?_⟩
  rw [Object.available_eq_iff.mpr h.1, hpage]
  exact Nat.le_of_lt h.2

/-- One event. -/
theorem step_collected (hs : Holds p s.object) (htx : s.object.currentTxPage < 128)
    (ha : OnlyAsks p s.version a.2) (h : step a.1 a.2 s = some t) :
    Collected p a.2.requestSet s t ∧ (Aimed p s ∨ a.2.Asks → Aimed p t) := by
  have hp : p < 256 := Nat.lt_of_lt_of_le hs.2 (Nat.le_succ_of_le (pageCount_le s))
  unfold OnlyAsks at ha
  match hm : a.2.message with
  | some (.request m) =>
    rw [hm] at ha
    obtain ⟨hpage, hversion⟩ := ha
    have hset : a.2.requestSet = m.requestSet := by simp only [Event.requestSet, hm]
    obtain ⟨hobj, hstate⟩ := step_request hm (hs.answers hpage hversion) h
    have hcur : t.object.currentTxPage = toInt8 p := by
      rw [hobj]
      exact Object.currentTxPage_queue htx hpage
    refine ⟨⟨by rw [hobj]; rfl, fun h128 => ?_, ?_⟩, fun _ => ⟨hcur, fun _ => hstate⟩⟩
    · rw [hobj, hset]
      exact Object.queuedFor_queue h128 hpage
    · rw [hcur]
      exact toInt8_lt p hp
  | some (.summary m) | some (.packet m) | some (.profile m) =>
    rw [hm] at ha
    exact ha.elim
  | none =>
    rw [hm] at ha
    have hset : a.2.requestSet = 0 := by simp only [Event.requestSet, hm]
    obtain ⟨hobj, htimed⟩ := step_quiet hm ha h
    refine ⟨⟨by rw [hobj], fun _ => by rw [hobj, hset, Nat.or_zero], by rw [hobj]; exact htx⟩, ?_⟩
    rintro (haimed | ⟨m, hasks⟩)
    · exact ⟨by rw [hobj]; exact haimed.page, htimed haimed.timed⟩
    · rw [hm] at hasks
      cases hasks

/-- A sequence of events. -/
theorem run_collected : ∀ {as : List (Env × Event)} {s : Node}, Holds p s.object →
    s.object.currentTxPage < 128 → (∀ a ∈ as, OnlyAsks p s.version a.2) →
    runList (fun a s => step a.1 a.2 s) as s = some t →
    Collected p (requested as) s t ∧ ((Aimed p s ∨ ∃ a ∈ as, a.2.Asks) → Aimed p t)
  | [], s, _, htx, _, h => by
    cases h
    exact ⟨.refl htx, fun h => h.elim id fun ⟨_, hmem, _⟩ => absurd hmem List.not_mem_nil⟩
  | a :: as, s, hs, htx, hask, h => by
    obtain ⟨s', hstep, hrun⟩ := Option.bind_eq_some_iff.mp h
    obtain ⟨hfirst, haim⟩ := step_collected hs htx (hask a List.mem_cons_self) hstep
    have hversion : s'.version = s.version := congrArg Object.version hfirst.object
    obtain ⟨hrest, haims⟩ := run_collected (hfirst.holds hs) hfirst.int8
      (fun b hb => hversion ▸ hask b (List.mem_cons_of_mem a hb)) hrun
    refine ⟨hfirst.trans hrest, ?_⟩
    rintro (hs | ⟨b, hb, hasks⟩)
    · exact haims (.inl (haim (.inl hs)))
    · rcases List.mem_cons.mp hb with rfl | hb
      · exact haims (.inl (haim (.inr hasks)))
      · exact haims (.inr ⟨b, hb, hasks⟩)

end

/-! ## What the timer brings -/

section

variable {set : Nat}

/-- The page is sent. -/
theorem step_fires (h128 : p < 128) (hpage : t.object.currentTxPage = toInt8 p) (hset : t.txSet ≠ 0)
    (htimer : t.txTimer = true) : step env .txTimer t = some (transition .maintain
      { sendPage env p { t with txTimer := false, effects := [] } with currentTxPage := -1 }) := by
  have hpage : t.currentTxPage = p := hpage.trans (toInt8_of_lt h128)
  have hqueued : ({ t with txTimer := false, effects := [] } : Node).object.Queued :=
    ⟨by rw [show _ = (p : Int) from hpage]; exact Int.natCast_nonneg p, hset⟩
  show some (if t.txTimer then _ else _) = _
  rw [if_pos htimer, txCallback_eq, if_pos hqueued]
  show some (transition .maintain { sendPage env t.currentTxPage.toNat _ with currentTxPage := -1 }) = _
  rw [hpage]
  rfl

/-- Nothing is sent, and TX is not left. -/
theorem step_idle (hidle : ¬ t.object.Queued) (htimer : t.txTimer = true) :
    step env .txTimer t = some { t with txTimer := false, effects := [] } := by
  have hidle : ¬ ({ t with txTimer := false, effects := [] } : Node).object.Queued := hidle
  show some (if t.txTimer then _ else _) = _
  rw [if_pos htimer, txCallback_eq, if_neg hidle]

/-- So nobody is served. -/
theorem not_serves_of_idle {f : File} (hidle : ¬ t.object.Queued) (hstate : t.delugeState = .tx)
    (htimer : t.txTimer = true) :
    ¬ ∃ t', step env .txTimer t = some t' ∧ ServesAsked p set f t' := by
  rintro ⟨t', hstep, hserves⟩
  rw [step_idle hidle htimer] at hstep
  cases hstep
  rw [show t.delugeState = .maintain from hserves.state] at hstate
  cases hstate

/-- The packet with number `k` of the page that is sent. -/
theorem step_packet (hp : p < 256) {k : Nat} (hk : k < nPkt) (hbit : t.txSet.testBit k = true) :
    ((transition .maintain { sendPage env p { t with txTimer := false, effects := [] } with
        currentTxPage := -1 }).packets.filter fun m => m.pagenum = p ∧ m.packetnum = k) =
      [(packetOf t p (readFile env p env.stack t.file).2.1 k).heard] := by
  rw [Node.packets, Node.broadcasts, transition_effects]
  exact sendPage_packet (s := { t with txTimer := false, effects := [] }) rfl hp hk hbit

/-- Every number asked for is served when something is queued and can be read. -/
theorem serves_of_covers (h128 : p < 128) (hpage : t.object.currentTxPage = toInt8 p)
    (hset : t.txSet ≠ 0) (htimer : t.txTimer = true)
    (hsub : ∀ k, set.testBit k = true → t.txSet.testBit k = true) (h : Covers env p t.file set) :
    ∃ t', step env .txTimer t = some t' ∧ ServesAsked p set t.file t' := by
  refine ⟨_, step_fires h128 hpage hset htimer, ?_, ?_, transition_state _ _⟩
  · intro k hk hbit
    refine ⟨_, step_packet (by omega) hk (hsub k hbit), rfl, ?_⟩
    exact packetOf_payload_covered (h k hk hbit) env.stack
  · have hobj := transition_object
      { sendPage env p { t with txTimer := false, effects := [] } with currentTxPage := -1 } .maintain
    exact congrArg Object.txSet hobj

/-- What is served whatever the local buffer held was read. -/
theorem covers_of_serves (h128 : p < 128) (hpage : t.object.currentTxPage = toInt8 p)
    (hset : t.txSet ≠ 0) (htimer : t.txTimer = true)
    (hsub : ∀ k, set.testBit k = true → t.txSet.testBit k = true)
    (h : ∀ stack, ∃ t', step (env.withStack stack) .txTimer t = some t' ∧
      ServesAsked p set t.file t') : Covers env p t.file set := by
  intro k hk hbit
  by_contra hlt
  have hshort : bytesRead env p t.file < sPkt * k + sPkt := Nat.lt_of_not_le hlt
  -- the last byte of the packet is what the buffer held
  have hbyte : ∀ c : UInt8,
      (Mem.read t.file.data (p * sPage + sPkt * k) sPkt).getD 63 0 = c := by
    intro c
    obtain ⟨t', hstep, hserves⟩ := h fun _ => c
    rw [step_fires h128 hpage hset htimer] at hstep
    cases hstep
    obtain ⟨m, hm, -, hpayload⟩ := hserves.packets k hk hbit
    rw [step_packet (by omega) hk (hsub k hbit)] at hm
    cases hm
    rw [← hpayload]
    exact packetOf_payload_uncovered hshort fun _ => c
  exact absurd ((hbyte 0).symm.trans (hbyte 1)) (by decide)

end

/-- **Requests are served completely.** A gateway that holds the whole image receives requests for page
    `p` in its version, and no other message. Whatever the local buffer holds when `tx_timer` runs down,
    each packet asked for is broadcast once with the file's bytes and the node is back in MAINTAIN,
    exactly when `p` is below 128, some packet is queued, and `read_page` gets those asked for. -/
theorem requests_served_iff {as : List (Env × Event)} (hall : s.object.AllComplete)
    (hp : p < s.pageCount) (htx : s.currentTxPage < 128)
    (hask : ∀ a ∈ as, OnlyAsks p s.version a.2) (hne : ∃ a ∈ as, a.2.Asks)
    (hrun : runList (fun a s => step a.1 a.2 s) as s = some t) (htimer : t.txTimer = true) :
    (∀ stack, ∃ t', step (env.withStack stack) .txTimer t = some t' ∧
        ServesAsked p (requested as) s.file t') ↔
      p < 128 ∧ s.object.queuedFor p ||| requested as ≠ 0 ∧ Covers env p s.file (requested as) := by
  have hp256 : p < 256 := Nat.lt_of_lt_of_le hp (Nat.le_succ_of_le (pageCount_le s))
  obtain ⟨hcollected, haimed⟩ := run_collected ⟨hall, hp⟩ htx hask hrun
  obtain ⟨hpage, htimed⟩ := haimed (.inr hne)
  have hfile : t.file = s.file := congrArg Object.file hcollected.object
  have hidle : ¬ t.object.Queued → ¬ ∃ t', step env .txTimer t = some t' ∧
      ServesAsked p (requested as) s.file t' :=
    fun h => not_serves_of_idle h (htimed htimer) htimer
  by_cases h128 : p < 128
  swap
  · have hneg : t.object.currentTxPage < 0 := by
      rw [hpage]
      exact toInt8_neg (by omega) hp256
    exact iff_of_false (fun h => hidle (fun hq => absurd hq.1 (by omega)) (h env.stack))
      fun h => h128 h.1
  have hset : t.txSet = s.object.queuedFor p ||| requested as := by
    rw [← hcollected.queued h128, Object.queuedFor, hpage, toInt8_of_lt h128, if_pos rfl]
    rfl
  have hsub : ∀ k, (requested as).testBit k = true → t.txSet.testBit k = true := by
    intro k hk
    rw [hset, Nat.testBit_or, hk, Bool.or_true]
  rw [← hset, ← hfile]
  constructor
  · intro h
    have hsome : t.txSet ≠ 0 := by
      intro hzero
      rw [hfile] at h
      exact hidle (fun hq => hq.2 hzero) (h env.stack)
    exact ⟨h128, hsome, covers_of_serves h128 hpage hsome htimer hsub h⟩
  · rintro ⟨-, hsome, hcovers⟩ stack
    exact serves_of_covers h128 hpage hsome htimer hsub hcovers

/-- The arrival of a request for some packets of a page in version 0. -/
def hearAsk (pagenum set : Nat) : Env × Event := hear (DelugeMsgRequest.bytes ⟨0, pagenum, set, 0⟩)

theorem message_hearAsk (pagenum set : Nat) :
    (hearAsk pagenum set).2.message = some (.request ⟨0, pagenum % 256, set % 256, 0⟩) :=
  message_request_bytes _ _

theorem onlyAsks_hearAsk {pagenum : Nat} (h : pagenum < 256) (set : Nat) :
    OnlyAsks pagenum 0 (hearAsk pagenum set).2 := by
  rw [OnlyAsks, message_hearAsk]
  exact ⟨Nat.mod_eq_of_lt h, rfl⟩

/-- A run of a gateway booted on zeros that leaves `tx_timer` pending. -/
theorem exists_of_asks (n : Nat) (as : List (Env × Event)) (q : Node → Bool)
    (h : (runList (fun a s => step a.1 a.2 s) as (boot n 0)).map (fun t => t.txTimer && q t) =
      some true) :
    ∃ t, runList (fun a s => step a.1 a.2 s) as (boot n 0) = some t ∧ t.txTimer = true ∧
      q t = true := by
  obtain ⟨t, ht, hq⟩ := Option.map_eq_some_iff.mp h
  obtain ⟨htimer, hq⟩ := Bool.and_eq_true_iff.mp hq
  exact ⟨t, ht, htimer, hq⟩

/-- Two requests for page 0 of two: packets 0 and 2. -/
theorem requests_served_two : ∃ t t', runList (fun a s => step a.1 a.2 s)
      [hearAsk 0 1, hearAsk 0 4] (boot 512 0) = some t ∧ step quietEnv .txTimer t = some t' ∧
    ServesAsked 0 5 (boot 512 0).file t' := by
  obtain ⟨t, hrun, htimer, -⟩ := exists_of_asks 512 [hearAsk 0 1, hearAsk 0 4]
    (fun _ => true) (by decide +kernel)
  have hask : ∀ a ∈ [hearAsk 0 1, hearAsk 0 4], OnlyAsks 0 (boot 512 0).version a.2 := by
    intro a ha
    simp only [List.mem_cons, List.not_mem_nil, or_false] at ha
    rcases ha with rfl | rfl <;> exact onlyAsks_hearAsk (by decide) _
  have hserved : ∀ stack, ∃ t', step (quietEnv.withStack stack) .txTimer t = some t' ∧
      ServesAsked 0 (requested [hearAsk 0 1, hearAsk 0 4]) (boot 512 0).file t' :=
    (requests_served_iff (booted_boot 512 0).fresh.allComplete (by decide +kernel)
      (by decide +kernel) hask ⟨_, List.mem_cons_self, _, message_hearAsk 0 1⟩ hrun htimer).mpr
        (by decide +kernel)
  obtain ⟨t', hstep, hserves⟩ := hserved quietEnv.stack
  exact ⟨t, t', hrun, hstep, hserves⟩

/-- A gateway with 129 pages is asked for all of page 128, which it can read: nothing is sent, and it
    stays in TX. -/
theorem request_lost_int8 : ∃ t, (boot 33024 0).pageCount = 129 ∧
    (boot 33024 0).object.AllComplete ∧ Covers quietEnv 128 (boot 33024 0).file 15 ∧
    runList (fun a s => step a.1 a.2 s) [hearAsk 128 15] (boot 33024 0) = some t ∧
    t.txTimer = true ∧
    ¬ ∃ t', step quietEnv .txTimer t = some t' ∧ ServesAsked 128 15 (boot 33024 0).file t' := by
  obtain ⟨t, hrun, htimer, hq⟩ := exists_of_asks 33024 [hearAsk 128 15]
    (fun t => decide (¬ t.object.Queued ∧ t.delugeState = .tx)) (by decide +kernel)
  obtain ⟨hidle, hstate⟩ := of_decide_eq_true hq
  exact ⟨t, by decide +kernel, (booted_boot 33024 0).fresh.allComplete, by decide +kernel, hrun,
    htimer, not_serves_of_idle hidle hstate htimer⟩

end Tx

end Adler.Deluge
