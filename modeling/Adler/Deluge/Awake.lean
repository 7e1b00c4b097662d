/-
  Whether a node in RX or TX has a timer left that brings it back to MAINTAIN.

  * `Awake`: `rx_timer` is pending in RX, `tx_timer` in TX.
  * `Wedges`: the two steps that break it. `tx_callback` acts only when a page is queued and
    `tx_set` is not zero; otherwise it returns and leaves TX without a timer. And `handle_summary`
    enters RX without a timer when the event timer of `rx_timer` still runs but an event of an
    earlier setting has already run the callback.
  * `awake_of_run`: both nodes stay awake in every run without such a step, and no longer.
  * `Rx.next_request_iff`: `handle_packet` schedules the request for the next page and then calls
    `transition`, which stops that timer when the node was in RX.
-/
import Adler.Deluge.Announce
import Adler.Deluge.Timers

namespace Adler.Deluge

open Lib (Mem Reach Always)
open Node

/-- Who is in RX or TX has the timer of that state pending. -/
structure Awake (s : Node) : Prop where
  rx : s.delugeState = .rx → s.rxTimer = true
  tx : s.delugeState = .tx → s.txTimer = true

instance (s : Node) : Decidable (Awake s) :=
  decidable_of_iff ((s.delugeState = .rx → s.rxTimer = true) ∧
    (s.delugeState = .tx → s.txTimer = true)) ⟨fun h => ⟨h.1, h.2⟩, fun h => ⟨h.1, h.2⟩⟩

/-- `tx_timer` runs down in TX while `tx_callback` has nothing to send, or a summary leads to RX while
    the event timer of `rx_timer` runs without the callback. -/
def Wedges (entersRx : DelugeMsgSummary → Prop) (e : Event) (s : Node) : Prop :=
  (e.isTxTimer = true ∧ s.txTimer = true ∧ s.delugeState = .tx ∧ ¬ s.object.Queued) ∨
    (e.BringsSummary entersRx ∧ s.rxTimer = false ∧ s.rxRunning = true)

instance (entersRx : DelugeMsgSummary → Prop) [DecidablePred entersRx] (e : Event) (s : Node) :
    Decidable (Wedges entersRx e s) :=
  inferInstanceAs (Decidable (_ ∧ _ ∨ _))

/-- With this summary a receiver comes to the end of `handle_summary`, where it enters RX. -/
structure Rx.EntersRx (env : Env) (s : Node) (m : DelugeMsgSummary) : Prop where
  version : m.version = s.updateVersion
  more : highestAvailablePage s < m.highestAvailable
  inTable : m.highestAvailable ≤ s.pageCount
  request : s.rInterval < secondsSince env.now (s.pages s.currentRxPage).lastRequest
  data : s.rInterval < secondsSince env.now (s.pages s.currentRxPage).lastData

instance (env : Env) (s : Node) (m : DelugeMsgSummary) : Decidable (Rx.EntersRx env s m) :=
  decidable_of_iff (m.version = s.updateVersion ∧ highestAvailablePage s < m.highestAvailable ∧
      m.highestAvailable ≤ s.pageCount ∧
      s.rInterval < Rx.secondsSince env.now (s.pages s.currentRxPage).lastRequest ∧
      s.rInterval < Rx.secondsSince env.now (s.pages s.currentRxPage).lastData)
    ⟨fun h => ⟨h.1, h.2.1, h.2.2.1, h.2.2.2.1, h.2.2.2.2⟩, fun h => ⟨h.1, h.2, h.3, h.4, h.5⟩⟩

/-- With this summary the gateway does. -/
structure Tx.EntersRx (env : Env) (s : Node) (m : DelugeMsgSummary) : Prop where
  version : m.version = s.updateVersion
  more : highestAvailablePage s < m.highestAvailable
  inTable : m.highestAvailable ≤ s.pageCount
  request : 2 * s.rInterval <
    Rx.secondsSince env.now (oldestStamps s.pages env.now m.highestAvailable).1
  data : s.rInterval < Rx.secondsSince env.now (oldestStamps s.pages env.now m.highestAvailable).2

instance (env : Env) (s : Node) (m : DelugeMsgSummary) : Decidable (Tx.EntersRx env s m) :=
  decidable_of_iff (m.version = s.updateVersion ∧ highestAvailablePage s < m.highestAvailable ∧
      m.highestAvailable ≤ s.pageCount ∧ 2 * s.rInterval <
        Rx.secondsSince env.now (Tx.oldestStamps s.pages env.now m.highestAvailable).1 ∧
      s.rInterval < Rx.secondsSince env.now (Tx.oldestStamps s.pages env.now m.highestAvailable).2)
    ⟨fun h => ⟨h.1, h.2.1, h.2.2.1, h.2.2.2.1, h.2.2.2.2⟩, fun h => ⟨h.1, h.2, h.3, h.4, h.5⟩⟩

/-- The steps of a receiver in which no payload leaves `current_page` and no state is left without its
    timer. -/
def Rx.Steady (a : Env × Event) (s : Node) : Prop :=
  s.object.InBuffer a.2 ∧ ¬ Wedges (EntersRx a.1 s) a.2 s

/-- Those of the gateway. -/
def Tx.Steady (a : Env × Event) (s : Node) : Prop :=
  s.object.InBuffer a.2 ∧ ¬ Wedges (EntersRx a.1 s) a.2 s

instance (a : Env × Event) (s : Node) : Decidable (Rx.Steady a s) :=
  inferInstanceAs (Decidable (_ ∧ _))

instance (a : Env × Event) (s : Node) : Decidable (Tx.Steady a s) :=
  inferInstanceAs (Decidable (_ ∧ _))

/-! ## The functions that change the state or a timer -/

@[simp] theorem transition_state (st : DelugeState) (s : Node) :
    (transition st s).delugeState = st := by
  unfold transition
  split
  · exact Eq.symm ‹_›
  · split <;> rfl

section

variable {env : Env} {s s' : Node}

/-- The timers and the state are as they were. -/
theorem Awake.frame (h : Awake s) (hst : s'.delugeState = s.delugeState)
    (hrx : s'.rxTimer = s.rxTimer) (htx : s'.txTimer = s.txTimer) : Awake s' where
  rx := by rw [hst, hrx]; exact h.rx
  tx := by rw [hst, htx]; exact h.tx

/-- In MAINTAIN no timer is asked for. -/
theorem Awake.of_maintain (h : s.delugeState = .maintain) : Awake s where
  rx := by rw [h]; exact nofun
  tx := by rw [h]; exact nofun

theorem awake_maintain (s : Node) : Awake (transition .maintain s) :=
  .of_maintain (transition_state .maintain s)

/-- RX is entered with `rx_timer` set. -/
theorem awake_rx (s : Node) : Awake (armRx (transition .rx s)) where
  rx := fun _ => rfl
  tx := fun h => by
    rw [show (armRx (transition .rx s)).delugeState = .rx from transition_state .rx s] at h
    cases h

/-- Unless its event timer runs without the callback. -/
theorem awake_expiredRx (s : Node) :
    Awake (armExpiredRx (transition .rx s)) ↔ s.rxRunning = false ∨ s.rxTimer = true := by
  have hstate : (armExpiredRx (transition .rx s)).delugeState = .rx := transition_state .rx s
  constructor
  · intro h
    exact (enterRx_rxTimer s).mp (h.rx hstate)
  · intro h
    refine ⟨fun _ => (enterRx_rxTimer s).mpr h, fun htx => ?_⟩
    rw [hstate] at htx
    cases htx

/-- What `handle_summary` compares, the state and the timers are those of `s` in `t`. -/
structure Alike (s t : Node) : Prop where
  pageCount : t.pageCount = s.pageCount
  pages : t.pages = s.pages
  currentRxPage : t.currentRxPage = s.currentRxPage
  updateVersion : t.updateVersion = s.updateVersion
  rInterval : t.rInterval = s.rInterval
  state : t.delugeState = s.delugeState
  running : t.rxRunning = s.rxRunning
  rx : t.rxTimer = s.rxTimer
  tx : t.txTimer = s.txTimer

theorem Alike.awake {t : Node} (ha : Alike s t) (h : Awake s) : Awake t :=
  h.frame ha.state ha.rx ha.tx

theorem Alike.trans {t u : Node} (h : Alike s t) (h' : Alike t u) : Alike s u where
  pageCount := h'.pageCount.trans h.pageCount
  pages := h'.pages.trans h.pages
  currentRxPage := h'.currentRxPage.trans h.currentRxPage
  updateVersion := h'.updateVersion.trans h.updateVersion
  rInterval := h'.rInterval.trans h.rInterval
  state := h'.state.trans h.state
  running := h'.running.trans h.running
  rx := h'.rx.trans h.rx
  tx := h'.tx.trans h.tx

theorem noteSummary_alike (m : DelugeMsgSummary) (s : Node) :
    Alike s (noteSummary m (highestAvailablePage s) (scanPages s)) := by
  generalize highestAvailablePage s = n
  exact ⟨rfl, rfl, rfl, rfl, rfl, rfl, rfl, rfl, rfl⟩

/-- A node that enters RX from there is awake when `rx_timer` can be set or is pending. -/
theorem Alike.awake_entered {t : Node} (ha : Alike s t) :
    Awake (armExpiredRx (transition .rx t)) ↔ s.rxRunning = false ∨ s.rxTimer = true := by
  rw [awake_expiredRx, ha.running, ha.rx]

/-- TX is entered with `tx_timer` set. -/
theorem awake_tx (s : Node) : Awake (armTx (transition .tx s)) where
  rx := fun h => by
    rw [show (armTx (transition .tx s)).delugeState = .tx from transition_state .tx s] at h
    cases h
  tx := fun _ => rfl

theorem handleRequest_awake (h : Awake s) (m : DelugeMsgRequest) :
    Awake (handleRequest env m s) := by
  unfold handleRequest
  split
  · exact h
  · dsimp only
    split
    · exact awake_tx _
    · exact h.frame rfl rfl rfl

theorem taken_awake (h : Awake s) (p : DelugeMsgPacket) : Awake (taken env p s) := by
  have hheard : Awake (heard p s) := h.frame rfl rfl rfl
  unfold taken
  generalize heard p s = t at hheard ⊢
  have hcopied : Awake (copyPayload p t) := hheard.frame rfl rfl rfl
  generalize copyPayload p t = u at hcopied ⊢
  exact hcopied.frame rfl rfl rfl

theorem handlePacketWith_awake {announce : Node → Node} {p : DelugeMsgPacket} (h : Awake s)
    (hp : handlePacketWith announce env p s = some s') : Awake s' := by
  have hout := handlePacketWith_outcome env s hp
  match hout with
  | .otherPage _ => exact h
  | .unwanted _ _ | .corrupt _ _ _ => exact h.frame rfl rfl rfl
  | .taken _ _ _ _ => exact taken_awake h p
  | .completes _ _ => exact awake_maintain _

theorem handleProfile_awake (h : Awake s) (m : DelugeMsgProfile) :
    Awake (handleProfile env m s) := by
  have hout := handleProfile_outcome env s m
  generalize handleProfile env m s = t at hout
  match hout with
  | .old _ => exact h
  | .noMemory _ _ => exact h.frame rfl rfl rfl
  | .accepted _ _ _ => exact awake_rx _

/-- The rate check of `send_request` leaves RX or sets `rx_timer` again. -/
theorem limitRequests_awake (h : s.delugeState = .tx → s.txTimer = true) (lambda : Nat) :
    Awake (limitRequests lambda s) := by
  unfold limitRequests
  dsimp only
  split
  · exact awake_maintain _
  · exact ⟨fun _ => rfl, h⟩

theorem advertiseSummary_awake (h : Awake s) : Awake (advertiseSummary s) := by
  unfold advertiseSummary
  split <;> exact h.frame rfl rfl rfl

theorem sendProfile_awake (h : Awake s) : Awake (sendProfile s) := by
  unfold sendProfile
  split <;> exact h.frame rfl rfl rfl

/-- `tx_callback` leaves TX when a page is queued, and else does nothing. -/
theorem txCallback_eq (env : Env) (s : Node) : txCallback env s =
    if s.object.Queued then
      transition .maintain { sendPage env s.currentTxPage.toNat s with currentTxPage := -1 }
    else s := by
  have htx : ¬ (sendPage env s.currentTxPage.toNat s).txSet ≠ 0 := by simp [sendPage]
  unfold txCallback
  simp only [htx, if_false]
  rfl

theorem not_wedges {entersRx : DelugeMsgSummary → Prop} {e : Event} (h : e.isTxTimer = false)
    (hm : ∀ m, e.message ≠ some (.summary m)) (s : Node) : ¬ Wedges entersRx e s := by
  rintro (⟨htx, -⟩ | ⟨⟨m, hsum, -⟩, -⟩)
  · rw [htx] at h
    cases h
  · exact hm m hsum

theorem timer_not_wedges {entersRx : DelugeMsgSummary → Prop} {e : Event}
    (h : e.isTxTimer = false) (hm : e.message = none) (s : Node) : ¬ Wedges entersRx e s :=
  not_wedges h (fun _ hs => nomatch hm.symm.trans hs) s

theorem txTimer_awake (entersRx : DelugeMsgSummary → Prop) (env : Env) (h : Awake s) :
    Awake (if s.txTimer then txCallback env { s with txTimer := false } else s) ↔
      ¬ Wedges entersRx .txTimer s := by
  have hnone : ¬ Event.BringsSummary .txTimer entersRx := fun ⟨_, hm, _⟩ => nomatch hm
  unfold Wedges
  rw [or_iff_left fun h => hnone h.1]
  by_cases hset : s.txTimer = true
  swap
  · rw [if_neg hset]
    exact iff_of_true h fun hw => hset hw.2.1
  rw [if_pos hset, txCallback_eq]
  by_cases hq : s.object.Queued
  · have hq' : ({ s with txTimer := false } : Node).object.Queued := hq
    rw [if_pos hq']
    exact iff_of_true (awake_maintain _) fun hw => hw.2.2.2 hq
  · have hq' : ¬ ({ s with txTimer := false } : Node).object.Queued := hq
    rw [if_neg hq']
    constructor
    · intro ha hw
      exact Bool.false_ne_true (ha.tx hw.2.2.1)
    · intro hw
      refine ⟨h.rx, fun htx => ?_⟩
      exact absurd ⟨rfl, hset, htx, hq⟩ hw

end

section

variable {hs : Env → DelugeMsgSummary → RimeAddr → Node → Node} {announce : Node → Node}
  {env : Env} {sender : RimeAddr} {b : Packetbuf} {s s' : Node}

/-- Messages but summaries keep a node awake, whatever they contain. -/
theorem commandDispatcherWith_awake {entersRx : DelugeMsgSummary → Prop}
    (hsum : ∀ m, Awake (hs env m sender s) ↔
      (entersRx m → s.rxRunning = false ∨ s.rxTimer = true))
    (h : Awake s)
    (hst : commandDispatcherWith hs (handlePacketWith announce) env sender b s = some s') :
    Awake s' ↔ ¬ Wedges entersRx (.receive sender b) s := by
  have hmsg : (Event.receive sender b).message = b.message := rfl
  have hquiet (hno : ∀ m, b.message ≠ some (.summary m)) :
      ¬ Wedges entersRx (.receive sender b) s :=
    not_wedges rfl (fun m hm => hno m (hmsg.symm.trans hm)) s
  rw [commandDispatcherWith_eq] at hst
  match hm : b.message with
  | none =>
    simp only [hm, Option.some.injEq] at hst
    exact iff_of_true (hst ▸ h) (hquiet fun _ h => nomatch hm.symm.trans h)
  | some (.summary m) =>
    simp only [hm, Option.some.injEq] at hst
    rw [← hst, hsum]
    constructor
    · rintro hkeeps (⟨htx, -⟩ | ⟨⟨m', hm', henters⟩, hidle, hrun⟩)
      · cases htx
      · obtain rfl : m' = m := Message.summary.inj (Option.some.inj (hm'.symm.trans hm))
        rcases hkeeps henters with hrun' | hset
        · exact Bool.false_ne_true (hrun'.symm.trans hrun)
        · exact Bool.false_ne_true (hidle.symm.trans hset)
    · intro hno henters
      by_contra hboth
      obtain ⟨hrun, hidle⟩ := not_or.mp hboth
      exact hno (.inr ⟨⟨m, hmsg.trans hm, henters⟩, Bool.eq_false_iff.mpr hidle,
        Bool.of_not_eq_false hrun⟩)
  | some (.request m) =>
    simp only [hm, Option.some.injEq] at hst
    exact iff_of_true (hst ▸ handleRequest_awake h m) (hquiet fun _ h => nomatch hm.symm.trans h)
  | some (.packet p) =>
    simp only [hm] at hst
    exact iff_of_true (handlePacketWith_awake h hst) (hquiet fun _ h => nomatch hm.symm.trans h)
  | some (.profile m) =>
    simp only [hm, Option.some.injEq] at hst
    exact iff_of_true (hst ▸ handleProfile_awake h m) (hquiet fun _ h => nomatch hm.symm.trans h)

/-- The timers whose callbacks leave the state alone. -/
theorem summaryTimer_awake (h : Awake s) :
    Awake (if s.summaryTimer then advertiseSummary { s with summaryTimer := false } else s) := by
  split
  · exact advertiseSummary_awake (h.frame rfl rfl rfl)
  · exact h

theorem profileTimer_awake (h : Awake s) :
    Awake (if s.profileTimer then sendProfile { s with profileTimer := false } else s) := by
  split
  · exact sendProfile_awake (h.frame rfl rfl rfl)
  · exact h

end

namespace Rx

variable {f : File} {v : Nat} {env : Env} {e : Event} {s s' : Node}

/-- The end of `handle_summary`. -/
theorem offerRequest_awake {m : DelugeMsgSummary} {sender : RimeAddr} {t : Node} (h : Awake s)
    (ha : Alike s t)
    (hmore : m.version = s.updateVersion ∧ highestAvailablePage s < m.highestAvailable) :
    Awake (offerRequest env m sender t) ↔
      (EntersRx env s m → s.rxRunning = false ∨ s.rxTimer = true) := by
  unfold offerRequest
  dsimp only
  rw [ha.pageCount, ha.pages, ha.currentRxPage]
  split
  · rename_i hle
    exact iff_of_true (ha.awake h) fun he => absurd he.inTable (Nat.not_le.mpr hle)
  · rename_i hle
    have htouched : Alike s (touch s.currentRxPage t) :=
      ha.trans ⟨rfl, rfl, rfl, rfl, rfl, rfl, rfl, rfl, rfl⟩
    generalize touch s.currentRxPage t = u at htouched ⊢
    rw [htouched.rInterval]
    split
    · rename_i hsoon
      refine iff_of_true (htouched.awake h) fun he => ?_
      rcases hsoon with hsoon | hsoon
      · exact absurd he.request (Nat.not_lt.mpr hsoon)
      · exact absurd he.data (Nat.not_lt.mpr hsoon)
    · rename_i hlate
      obtain ⟨hrequest, hdata⟩ := not_or.mp hlate
      have he : EntersRx env s m := ⟨hmore.1, hmore.2, Nat.le_of_not_lt hle,
        Nat.lt_of_not_le hrequest, Nat.lt_of_not_le hdata⟩
      have hcopied : Alike s (copySender sender u) :=
        htouched.trans ⟨rfl, rfl, rfl, rfl, rfl, rfl, rfl, rfl, rfl⟩
      rw [hcopied.awake_entered]
      exact ⟨fun h _ => h, fun h => h he⟩

theorem askProfile_alike (m : DelugeMsgSummary) (sender : RimeAddr) (t : Node) :
    Alike t (askProfile m sender t) :=
  ⟨rfl, rfl, rfl, rfl, rfl, rfl, rfl, rfl, rfl⟩

theorem handleSummary_awake (m : DelugeMsgSummary) (sender : RimeAddr) (h : Awake s) :
    Awake (handleSummary env m sender s) ↔
      (EntersRx env s m → s.rxRunning = false ∨ s.rxTimer = true) := by
  have hnoted := (noteSummary_alike m s).trans (askProfile_alike m sender
    (noteSummary m (highestAvailablePage s) (scanPages s)))
  unfold handleSummary
  dsimp only
  generalize askProfile m sender
    (noteSummary m (highestAvailablePage s) (scanPages s)) = t at hnoted ⊢
  rw [hnoted.updateVersion]
  split
  · rename_i hmore
    exact offerRequest_awake h hnoted hmore
  · rename_i hmore
    exact iff_of_true (hnoted.awake h) fun he => absurd ⟨he.version, he.more⟩ hmore

/-- One event of the receiver. -/
theorem step_awake (h : Awake s) (hst : step env e s = some s') :
    Awake s' ↔ ¬ Wedges (EntersRx env s) e s := by
  have h0 : Awake { s with effects := [] } := h.frame rfl rfl rfl
  match e with
  | .receive sender b =>
    have hsum : ∀ m, Awake (handleSummary env m sender { s with effects := [] }) ↔
        (EntersRx env s m → s.rxRunning = false ∨ s.rxTimer = true) := by
      intro m
      have hcleared : EntersRx env { s with effects := [] } m ↔ EntersRx env s m :=
        ⟨fun he => ⟨he.1, he.2, he.3, he.4, he.5⟩, fun he => ⟨he.1, he.2, he.3, he.4, he.5⟩⟩
      rw [handleSummary_awake m sender h0, hcleared]
    exact commandDispatcherWith_awake (s := { s with effects := [] }) hsum h0 hst
  | .txTimer =>
    cases hst
    exact txTimer_awake _ env h0
  | .rxExpires =>
    cases hst
    exact iff_of_true (h.frame rfl rfl rfl) (timer_not_wedges rfl rfl s)
  | .rxTimer =>
    cases hst
    refine iff_of_true ?_ (timer_not_wedges rfl rfl s)
    dsimp only
    split
    · exact limitRequests_awake (by exact h.tx) constLambda
    · rename_i hidle
      exact h0.frame rfl (Bool.eq_false_iff.mpr hidle).symm rfl
  | .summaryTimer =>
    cases hst
    exact iff_of_true (summaryTimer_awake h0) (timer_not_wedges rfl rfl s)
  | .profileTimer =>
    cases hst
    exact iff_of_true (profileTimer_awake h0) (timer_not_wedges rfl rfl s)
  | .round =>
    cases hst
    exact iff_of_true (h.frame rfl rfl rfl) (timer_not_wedges rfl rfl s)

theorem Booted.state (h : Booted f v s) : s.delugeState = .maintain := by
  obtain ⟨e, h⟩ := h
  obtain ⟨t, -, rfl⟩ := delugeDisseminate_init h
  rfl

theorem awake_of_reach (h : Reach (Booted f v) Step Steady s) : Awake s := by
  refine h.invariant (fun s h0 => .of_maintain h0.state) ?_
  intro a s s' hawake hok hst
  exact (step_awake hawake (hst.eq_some hok.1)).mpr hok.2

end Rx

namespace Tx

variable {f : File} {v : Nat} {env : Env} {e : Event} {s s' : Node}

/-- The end of `handle_summary`. -/
theorem offerRequest_awake {m : DelugeMsgSummary} {sender : RimeAddr} {t : Node} (h : Awake s)
    (ha : Alike s t)
    (hmore : m.version = s.updateVersion ∧ highestAvailablePage s < m.highestAvailable) :
    Awake (offerRequest env m sender t) ↔
      (EntersRx env s m → s.rxRunning = false ∨ s.rxTimer = true) := by
  unfold offerRequest
  dsimp only
  rw [ha.pageCount, ha.pages]
  split
  · rename_i hle
    exact iff_of_true (ha.awake h) fun he => absurd he.inTable (Nat.not_le.mpr hle)
  · rename_i hle
    have htouched : Alike s (touchBelow m.highestAvailable t) :=
      ha.trans ⟨rfl, rfl, rfl, rfl, rfl, rfl, rfl, rfl, rfl⟩
    generalize touchBelow m.highestAvailable t = u at htouched ⊢
    rw [htouched.rInterval]
    split
    · rename_i hsoon
      refine iff_of_true (htouched.awake h) fun he => ?_
      rcases hsoon with hsoon | hsoon
      · exact absurd he.request (Nat.not_lt.mpr hsoon)
      · exact absurd he.data (Nat.not_lt.mpr hsoon)
    · rename_i hlate
      obtain ⟨hrequest, hdata⟩ := not_or.mp hlate
      have he : EntersRx env s m := ⟨hmore.1, hmore.2, Nat.le_of_not_lt hle,
        Nat.lt_of_not_le hrequest, Nat.lt_of_not_le hdata⟩
      have hcopied : Alike s (copySender sender u) :=
        htouched.trans ⟨rfl, rfl, rfl, rfl, rfl, rfl, rfl, rfl, rfl⟩
      rw [hcopied.awake_entered]
      exact ⟨fun h _ => h, fun h => h he⟩

theorem postReport_alike (m : DelugeMsgSummary) (sender : RimeAddr) (n : Nat) (t : Node) :
    Alike t (postReport m sender n t) := by
  unfold postReport
  split <;> exact ⟨rfl, rfl, rfl, rfl, rfl, rfl, rfl, rfl, rfl⟩

theorem handleSummary_awake (m : DelugeMsgSummary) (sender : RimeAddr) (h : Awake s) :
    Awake (handleSummary env m sender s) ↔
      (EntersRx env s m → s.rxRunning = false ∨ s.rxTimer = true) := by
  have hnoted := (noteSummary_alike m s).trans (postReport_alike m sender (highestAvailablePage s)
    (noteSummary m (highestAvailablePage s) (scanPages s)))
  unfold handleSummary
  dsimp only
  generalize postReport m sender (highestAvailablePage s)
    (noteSummary m (highestAvailablePage s) (scanPages s)) = t at hnoted ⊢
  rw [hnoted.updateVersion]
  split
  · rename_i hmore
    exact offerRequest_awake h hnoted hmore
  · rename_i hmore
    exact iff_of_true (hnoted.awake h) fun he => absurd ⟨he.version, he.more⟩ hmore

/-- One event of the gateway. -/
theorem step_awake (h : Awake s) (hst : step env e s = some s') :
    Awake s' ↔ ¬ Wedges (EntersRx env s) e s := by
  have h0 : Awake { s with effects := [] } := h.frame rfl rfl rfl
  match e with
  | .receive sender b =>
    have hsum : ∀ m, Awake (handleSummary env m sender { s with effects := [] }) ↔
        (EntersRx env s m → s.rxRunning = false ∨ s.rxTimer = true) := by
      intro m
      have hcleared : EntersRx env { s with effects := [] } m ↔ EntersRx env s m :=
        ⟨fun he => ⟨he.1, he.2, he.3, he.4, he.5⟩, fun he => ⟨he.1, he.2, he.3, he.4, he.5⟩⟩
      rw [handleSummary_awake m sender h0, hcleared]
    exact commandDispatcherWith_awake (s := { s with effects := [] }) hsum h0 hst
  | .txTimer =>
    cases hst
    exact txTimer_awake _ env h0
  | .rxExpires =>
    cases hst
    exact iff_of_true (h.frame rfl rfl rfl) (timer_not_wedges rfl rfl s)
  | .rxTimer =>
    cases hst
    refine iff_of_true ?_ (timer_not_wedges rfl rfl s)
    dsimp only
    split
    · exact limitRequests_awake (by exact h.tx) constLambda
    · rename_i hidle
      exact h0.frame rfl (Bool.eq_false_iff.mpr hidle).symm rfl
  | .summaryTimer =>
    cases hst
    exact iff_of_true (summaryTimer_awake h0) (timer_not_wedges rfl rfl s)
  | .profileTimer =>
    cases hst
    exact iff_of_true (profileTimer_awake h0) (timer_not_wedges rfl rfl s)
  | .round =>
    cases hst
    exact iff_of_true (h.frame rfl rfl rfl) (timer_not_wedges rfl rfl s)

theorem Booted.state (h : Booted f v s) : s.delugeState = .maintain := by
  obtain ⟨e, h⟩ := h
  obtain ⟨t, -, rfl⟩ := delugeDisseminate_init h
  rfl

theorem awake_of_reach (h : Reach (Booted f v) Step Steady s) : Awake s := by
  refine h.invariant (fun s h0 => .of_maintain h0.state) ?_
  intro a s s' hawake hok hst
  exact (step_awake hawake (hst.eq_some hok.1)).mpr hok.2

end Tx

/-- A request for no packet of page 0. -/
def emptyRequest : Env × Event := hear (DelugeMsgRequest.bytes ⟨0, 0, 0, 0⟩)

/-- Ten seconds after boot. -/
def tenSeconds (a : Env × Event) : Env × Event :=
  ({ a.1 with now := .ofNat (10 * clockSecond) }, a.2)

/-- Page 0 of four is requested and heard, which sets `rx_timer` for page 1. Its event is posted just
    before the last packet of page 1, which sets `rx_timer` again, for page 2. Then the event is
    handled: page 2 is requested, and the event timer goes on alone. -/
def staleRun : List (Env × Event) :=
  (hearProfile 1 [1, 1, 1, 1] :: fireRx :: hearPage 1 0 ++ (hearPage 1 1).take 3 ++
    (quietEnv, .rxExpires) :: (hearPage 1 1).drop 3 ++ [fireRx]).map tenSeconds

namespace Rx

variable {env : Env} {e : Event} {p : DelugeMsgPacket} {s s' : Node}

/-- What follows a page that is not the last. -/
theorem nextPage_rxTimer {announce : Node → Node} {t : Node}
    (h : p.pagenum ≠ (t.pageCount + 65535) % 65536) :
    (nextPage announce p t).rxTimer = true ↔
      t.rxTimer = true ∨ (t.rxRunning = false ∧ t.currentRxPage < t.pageCount) := by
  unfold nextPage
  rw [if_neg h]
  split
  · rename_i hcur
    rw [armExpiredRx_rxTimer]
    exact ⟨fun h => h.elim (fun hrun => .inr ⟨hrun, hcur⟩) .inl,
      fun h => h.elim .inr fun hrun => .inl hrun.1⟩
  · rename_i hcur
    exact ⟨.inl, fun h => h.resolve_right fun hnext => hcur hnext.2⟩

/-- **The request for the next page.** After a packet that completes a page which is not the last,
    `rx_timer` is pending exactly when the node was not in RX, and the timer was pending before or its
    event timer had run down and the page count has room for a next page. -/
theorem next_request_iff (hm : e.message = some (.packet p)) (hc : s.object.Completes p)
    (hl : ¬ s.object.AtLast) (hst : step env e s = some s') :
    s'.rxTimer = true ↔ s.delugeState ≠ .rx ∧
      (s.rxTimer = true ∨ (s.rxRunning = false ∧ (s.currentRxPage + 1) % 256 < s.pageCount)) := by
  rw [step_packet hm] at hst
  have hs' := handlePacket_completes (s := { s with effects := [] }) hc hst
  generalize ht : stored env p { s with effects := [] } = t at hs'
  have hobj : t.object = s.object.store env p :=
    ht ▸ stored_object env { s with effects := [] } hc.1.1
  have hcount : t.pageCount = s.pageCount := congrArg Object.pageCount hobj
  have hcur : t.currentRxPage = (s.currentRxPage + 1) % 256 :=
    congrArg Object.currentRxPage hobj
  have htimers := stored_timers env { s with effects := [] } p
  have hrx : t.rxTimer = s.rxTimer := ht ▸ congrArg Timers.rx htimers
  have hrun : t.rxRunning = s.rxRunning := ht ▸ congrArg Timers.running htimers
  have hstate : t.delugeState = s.delugeState :=
    ht ▸ stored_state env { s with effects := [] } p
  have hnext : p.pagenum ≠ (t.pageCount + 65535) % 65536 := by
    rw [hcount, hc.1.1]
    exact hl
  rw [hs', transition_rxTimer, nextPage_state t advertiseSummary_state, hstate]
  by_cases hs : s.delugeState = .rx
  · rw [if_pos ⟨hs, by decide⟩]
    exact iff_of_false Bool.false_ne_true fun h => h.1 hs
  · rw [if_neg fun h => hs h.1, nextPage_rxTimer hnext, hrx, hrun, hcur, hcount]
    exact ⟨fun h => ⟨hs, h⟩, fun h => h.2⟩

/-- Packet `p` completes a page that is not the last, in RX or not. -/
def AboutToFinish (rx : Bool) (p : DelugeMsgPacket) (s : Node) : Prop :=
  s.object.Completes p ∧ ¬ s.object.AtLast ∧ p.pagenum + 1 < s.pageCount ∧
    (s.delugeState = .rx ↔ rx = true) ∧ s.object.InBuffer (hear p.bytes).2

instance (rx : Bool) (p : DelugeMsgPacket) (s : Node) : Decidable (AboutToFinish rx p s) :=
  inferInstanceAs (Decidable (_ ∧ _ ∧ _ ∧ _ ∧ _))

/-- The packets of page 0 but the last, in version 1. -/
def mostOfPage : List (Env × Event) := (hearPage 1 0).take 3

/-- Once the request for page 0 is out, the node is in MAINTAIN and the next request is set. -/
theorem next_request_after_request :
    ∃ s s', Reach (Booted (zeroFile 512) 0) Step Always s ∧
      step quietEnv (hear lastPacket.bytes).2 s = some s' ∧ s'.rxTimer = true := by
  obtain ⟨s, hs, hp⟩ := exists_of_run 512 0 Always (hearProfile 1 [1, 1] :: fireRx :: mostOfPage)
    (fun s => decide (AboutToFinish false lastPacket s ∧ s.rxRunning = false)) (by decide +kernel)
  obtain ⟨⟨hc, hl, hmore, hrx, hin⟩, hrun⟩ := of_decide_eq_true hp
  obtain ⟨s', hst⟩ : ∃ s', step quietEnv (hear lastPacket.bytes).2 s = some s' := step_isSome hin
  refine ⟨s, s', hs, hst, (next_request_iff message_lastPacket hc hl hst).mpr
    ⟨?_, .inr ⟨hrun, ?_⟩⟩⟩
  · exact fun h => Bool.false_ne_true (hrx.mp h)
  · rw [show s.currentRxPage = lastPacket.pagenum from hc.1.1.symm]
    exact hmore

/-- The last packet of page 2 of the same update. -/
def thirdPacket : DelugeMsgPacket := ⟨1, 2, 3, 0, 0, List.replicate sPkt 0⟩

theorem message_thirdPacket :
    (hear thirdPacket.bytes).2.message = some (.packet thirdPacket) := by
  show some (Message.packet (DelugeMsgPacket.ofBuf (.ofBytes thirdPacket.bytes fun _ => 0))) = _
  rw [DelugeMsgPacket.ofBuf_bytes _ _ rfl]
  rfl

/-- Packets that another node asked for complete page 0 while the own request still waits: the
    request for page 1 is never set. And after an event of an earlier setting, in MAINTAIN, that for
    page 3 is not. -/
theorem next_request_lost :
    (∃ s s', Reach (Booted (zeroFile 512) 0) Step Always s ∧ s.delugeState = .rx ∧
      (hear lastPacket.bytes).2.message = some (.packet lastPacket) ∧
      s.object.Completes lastPacket ∧ ¬ s.object.AtLast ∧ lastPacket.pagenum + 1 < s.pageCount ∧
      step quietEnv (hear lastPacket.bytes).2 s = some s' ∧ s'.rxTimer = false) ∧
    ∃ s s', Reach (Booted (zeroFile 1024) 0) Step Always s ∧ s.delugeState ≠ .rx ∧
      (hear thirdPacket.bytes).2.message = some (.packet thirdPacket) ∧
      s.object.Completes thirdPacket ∧ ¬ s.object.AtLast ∧ thirdPacket.pagenum + 1 < s.pageCount ∧
      step quietEnv (hear thirdPacket.bytes).2 s = some s' ∧ s'.rxTimer = false := by
  constructor
  · obtain ⟨s, hs, hp⟩ := exists_of_run 512 0 Always (hearProfile 1 [1, 1] :: mostOfPage)
      (fun s => decide (AboutToFinish true lastPacket s) &&
        (step quietEnv (hear lastPacket.bytes).2 s).any fun s' => !s'.rxTimer) (by decide +kernel)
    obtain ⟨hp, hs'⟩ := Bool.and_eq_true_iff.mp hp
    obtain ⟨hc, hl, hmore, hrx, -⟩ := of_decide_eq_true hp
    obtain ⟨s', hst, hidle⟩ := (Option.any_eq_true _ _).mp hs'
    exact ⟨s, s', hs, hrx.mpr rfl, message_lastPacket, hc, hl, hmore, hst, by simpa using hidle⟩
  · obtain ⟨s, hs, hp⟩ := exists_of_run 1024 0 Always
      (staleRun ++ ((hearPage 1 2).take 3).map tenSeconds)
      (fun s => decide (AboutToFinish false thirdPacket s) &&
        (step quietEnv (hear thirdPacket.bytes).2 s).any fun s' => !s'.rxTimer) (by decide +kernel)
    obtain ⟨hp, hs'⟩ := Bool.and_eq_true_iff.mp hp
    obtain ⟨hc, hl, hmore, hrx, -⟩ := of_decide_eq_true hp
    obtain ⟨s', hst, hidle⟩ := (Option.any_eq_true _ _).mp hs'
    exact ⟨s, s', hs, fun h => Bool.false_ne_true (hrx.mp h), message_thirdPacket, hc, hl, hmore,
      hst, by simpa using hidle⟩

end Rx

end Adler.Deluge
