/-
  For which senders the gateway posts a report. A receiver advertises `update_version`, which is the
  gateway's from the moment an update begins, together with the number of pages it has up to the
  first missing one; the gateway takes the pair for a finished update when it is its own.

  * `Published`: the gateway, which never changes. `Idle`, `Updating`: a receiver before and after it
    has accepted the gateway's profile.
  * `Honest`: what every frame on the air says; a summary that the gateway would take for a finished
    update was sent by a node that had finished it.
  * `PostedOk`: the steps in which a receiver that finds no memory for a new table keeps within the
    old one, and does not go over to an image without pages while `summary_timer` is pending.
  * `posted_updated`: in runs of such steps a report is only posted for a node that has committed.
-/
import Adler.Deluge.Commit
import Adler.Deluge.Network
import Adler.Deluge.Timers

namespace Adler.Deluge

open Lib (Mem Protocol Reach Sent)

namespace Object

variable {env : Env} {e : Event} {pending : Bool} {o o' : Object}

/-- Unless a newer profile arrives, the record of a complete page stays as it is. -/
theorem marks_kept (hc : Change env e pending o o')
    (hold : e.OnProfile fun m => m.version ≤ o.updateVersion) {i : Nat}
    (hi : (o.marks i).complete = true) : o'.marks i = o.marks i := by
  have hne : ∀ p, o.Wants p → i ≠ o.currentRxPage := by
    intro p hw heq
    rw [heq, hw.2.2] at hi
    cases hi
  cases hc with
  | same => rfl
  | queue _ _ => rfl
  | spoil _ _ _ => rfl
  | collect _ hw _ _ => exact Function.update_of_ne (hne _ hw) _ _
  | store _ hc _ => exact store_marks_ne env _ (hne _ hc.1)
  | commit _ hc _ => exact store_marks_ne env _ (hne _ hc.1)
  | announce hm hv _ => exact absurd hv (Nat.not_lt.mpr (hold _ hm))
  | resize _ _ _ => rfl
  | serve _ _ _ => rfl

theorem current_lt_change (hc : Change env e pending o o') (h : o.currentRxPage < 256) :
    o'.currentRxPage < 256 := by
  cases hc with
  | store _ _ _ => exact Nat.mod_lt _ (by decide)
  | commit _ _ _ => exact Nat.mod_lt _ (by decide)
  | announce _ _ _ => exact Nat.mod_lt _ (by decide)
  | _ => exact h

/-- An object without missing pages does not commit, and without a newer profile nothing else
    changes it. -/
theorem settled_change (hc : Change env e pending o o')
    (hold : e.OnProfile fun m => m.version ≤ o.updateVersion) (hall : o.AllComplete)
    (hcurrent : o.currentRxPage < 256) :
    o'.pageCount = o.pageCount ∧ o'.entries = o.entries ∧ o'.version = o.version ∧
      o'.updateVersion = o.updateVersion := by
  cases hc with
  | commit _ hc hlast =>
    -- the current page would be the last one, which is complete
    have hlt : o.currentRxPage < o.pageCount := by
      have hlast : o.currentRxPage = (o.pageCount + 65535) % 65536 := hlast
      omega
    have hmissing := hc.1.2.2
    rw [hall _ hlt] at hmissing
    cases hmissing
  | announce hm hv _ => exact absurd hv (Nat.not_lt.mpr (hold _ hm))
  | resize hm hv _ => exact absurd hv (Nat.not_lt.mpr (hold _ hm))
  | _ => exact ⟨rfl, rfl, rfl, rfl⟩

end Object

/-! ## The gateway and the receivers -/

/-- The gateway's object: `n` pages, all complete, in version `v`. -/
structure Published (v n : Nat) (o : Object) : Prop where
  version : o.version = v
  updateVersion : o.updateVersion = v
  pageCount : o.pageCount = n
  complete : ∀ i, i < n → (o.marks i).complete = true
  versions : ∀ i, i < n → (o.marks i).version = v
  current : o.currentRxPage < 256

theorem Published.allComplete {v n : Nat} {o : Object} (h : Published v n o) : o.AllComplete :=
  fun i hi => h.complete i (h.pageCount ▸ hi)

/-- A node that has just been started publishes its image. -/
theorem Fresh.published {f : File} {v n : Nat} {s : Node} (h : Fresh f v s) (hn : s.pageCount = n) :
    Published (v % 256) n s.object where
  version := h.version
  updateVersion := h.updateVersion
  pageCount := hn
  complete := fun i hi => congrArg Mark.complete (h.marks i (hn ▸ hi))
  versions := fun i hi => congrArg Mark.version (h.marks i (hn ▸ hi))
  current := by
    rw [show s.object.currentRxPage = 0 from h.currentRxPage]
    decide

theorem Published.change {v n : Nat} {env : Env} {e : Event} {pending : Bool} {o o' : Object}
    (h : Published v n o) (hc : Object.Change env e pending o o')
    (hold : e.OnProfile fun m => m.version = v) : Published v n o' := by
  have hold : e.OnProfile fun m => m.version ≤ o.updateVersion := fun m hm =>
    Nat.le_of_eq ((hold m hm).trans h.updateVersion.symm)
  obtain ⟨hcount, _, hversion, hupdate⟩ := Object.settled_change hc hold h.allComplete h.current
  have hmarks : ∀ i, i < n → o'.marks i = o.marks i := fun i hi =>
    Object.marks_kept hc hold (h.complete i hi)
  exact {
    version := hversion.trans h.version
    updateVersion := hupdate.trans h.updateVersion
    pageCount := hcount.trans h.pageCount
    complete := fun i hi => (congrArg Mark.complete (hmarks i hi)).trans (h.complete i hi)
    versions := fun i hi => (congrArg Mark.version (hmarks i hi)).trans (h.versions i hi)
    current := Object.current_lt_change hc h.current }

/-- A receiver that has not accepted the gateway's profile. -/
structure Idle (v : Nat) (o : Object) : Prop where
  same : o.updateVersion = o.version
  older : o.version < v
  complete : ∀ i, i < o.entries → (o.marks i).complete = true
  versions : ∀ i, i < o.entries → (o.marks i).version < v
  pageCount : o.pageCount ≤ o.entries

/-- How far a receiver has come with the gateway's version: it has committed it, the last page is
    missing, or there is no page at all and it will never advertise. -/
inductive Progress (v n : Nat) (s : Node) : Prop
  | committed : s.version = v → s.object.AllComplete → Progress v n s
  | lastMissing : 0 < n → (s.object.marks (n - 1)).complete = false → Progress v n s
  | noPages : n = 0 → s.version < v → s.summaryTimer = false → Progress v n s

/-- A receiver that has accepted the gateway's profile. -/
structure Updating (v n : Nat) (s : Node) : Prop where
  updateVersion : s.updateVersion = v
  pageCount : s.pageCount = n
  progress : Progress v n s

/-- A receiver of the network. -/
structure Receiver (v n : Nat) (s : Node) : Prop where
  profileTimer : s.profileTimer = false
  below : s.object.Below
  current : s.currentRxPage < 256
  phase : Idle v s.object ∨ Updating v n s

/-- The steps of a receiver after which its summaries can be trusted. -/
structure PostedOk (a : Env × Event) (s : Node) : Prop where
  memory : a.2.OnProfile fun m =>
    s.updateVersion < m.version → a.1.heap.isNone → m.npages ≤ s.entries
  pages : a.2.OnProfile fun m => s.updateVersion < m.version → a.1.heap.isSome →
    m.npages = 0 → s.summaryTimer = true → s.delugeState = .maintain

instance (a : Env × Event) (s : Node) : Decidable (PostedOk a s) :=
  decidable_of_iff ((a.2.OnProfile fun m =>
      s.updateVersion < m.version → a.1.heap.isNone → m.npages ≤ s.entries) ∧
      a.2.OnProfile fun m => s.updateVersion < m.version → a.1.heap.isSome →
        m.npages = 0 → s.summaryTimer = true → s.delugeState = .maintain)
    ⟨fun h => ⟨h.1, h.2⟩, fun h => ⟨h.1, h.2⟩⟩

/-- A profile of the gateway. -/
structure DelugeMsgProfile.Publishes (m : DelugeMsgProfile) (v n : Nat) : Prop where
  version : m.version = v
  npages : m.npages = n
  vector : 0 < v → ∀ i, i < n → m.versionVector i = v

variable {v n : Nat} {env : Env} {e : Event} {s s' : Node}

/-- After the gateway's profile no page of an idle receiver is complete. -/
theorem Idle.announced_missing {o : Object} {m : DelugeMsgProfile} (h : Idle v o)
    (hm : m.Publishes v n) (block : Nat → Mark) {i : Nat} (hi : i < n) :
    (o.announcedMark m block i).complete = false := by
  have hcount := h.pageCount
  unfold Object.announcedMark
  rw [hm.npages]
  by_cases hlt : i < min n o.pageCount
  · have hnew : m.versionVector i > (o.marks i).version := by
      rw [hm.vector (Nat.lt_of_le_of_lt (Nat.zero_le _) h.older) i hi]
      exact h.versions i (by omega)
    rw [if_pos hlt, if_pos hnew]
  · rw [if_neg hlt, if_pos hi]

theorem Idle.step (h : Idle v s.object) (hcurrent : s.currentRxPage < 256)
    (hst : Rx.step env e s = some s')
    (hprofile : e.OnProfile fun m => m.Publishes v n) (hok : PostedOk (env, e) s) :
    Idle v s'.object ∨ Updating v n s' := by
  have hchange := Rx.step_change hst
  by_cases hnew : ∃ m, e.message = some (.profile m) ∧ s.updateVersion < m.version
  · obtain ⟨m, hm, hv⟩ := hnew
    have hpub := hprofile m hm
    cases hheap : env.heap with
    | some block =>
      have hobj := Rx.step_refines hst
      rw [Object.next_announce hm hv hheap] at hobj
      have hmarks : ∀ i, s'.object.marks i =
          s.object.announcedMark m (fun i => (block i).mark) i := fun i => by rw [hobj]; rfl
      have hversion : s'.version = s.version := congrArg Object.version hobj
      refine .inr ⟨?_, ?_, ?_⟩
      · exact (congrArg Object.updateVersion hobj).trans hpub.version
      · exact (congrArg Object.pageCount hobj).trans hpub.npages
      · rcases Nat.eq_zero_or_pos n with hn | hn
        · refine .noPages hn (hversion ▸ h.older) ?_
          by_contra hset
          cases (Rx.step_timers hst).summary (Bool.of_not_eq_false hset) with
          | kept hpending hstate =>
            exact hstate m hm hv (by rw [hheap]; rfl)
              (hok.pages m hm hv (by rw [hheap]; rfl) (hpub.npages.trans hn) hpending)
          | asked hsummary _ _ => rw [hm] at hsummary; cases hsummary
        · refine .lastMissing hn ?_
          rw [hmarks]
          exact h.announced_missing hpub _ (by omega)
    | none =>
      have hobj := Rx.step_refines hst
      rw [Object.next_some hm] at hobj
      simp only [Object.handle, Object.update, if_neg (Nat.not_le.mpr
        (show s.object.updateVersion < m.version from hv)), hheap] at hobj
      have hle := hok.memory m hm hv (by rw [hheap]; rfl)
      rw [hobj]
      exact .inl ⟨h.same, h.older, h.complete, h.versions, hle⟩
  · have hold : e.OnProfile fun m => m.version ≤ s.object.updateVersion := fun m hm =>
      Nat.le_of_not_lt fun hv => hnew ⟨m, hm, hv⟩
    have hall : s.object.AllComplete := fun i hi =>
      h.complete i (Nat.lt_of_lt_of_le hi h.pageCount)
    obtain ⟨hcount, hentries, hversion, hupdate⟩ :=
      Object.settled_change hchange hold hall hcurrent
    have hmarks : ∀ i, i < s.object.entries → s'.object.marks i = s.object.marks i :=
      fun i hi => Object.marks_kept hchange hold (h.complete i hi)
    refine .inl ⟨?_, ?_, ?_, ?_, ?_⟩
    · rw [hversion, hupdate, h.same]
    · rw [hversion]
      exact h.older
    · intro i hi
      rw [hentries] at hi
      rw [hmarks i hi]
      exact h.complete i hi
    · intro i hi
      rw [hentries] at hi
      rw [hmarks i hi]
      exact h.versions i hi
    · rw [hcount, hentries]
      exact h.pageCount

/-- Without a newer profile the page count and the version aimed at stay. -/
theorem Object.target_kept {pending : Bool} {o o' : Object} (hc : Change env e pending o o')
    (hold : e.OnProfile fun m => m.version ≤ o.updateVersion) :
    o'.pageCount = o.pageCount ∧ o'.updateVersion = o.updateVersion := by
  cases hc with
  | announce hm hv _ => exact absurd hv (Nat.not_lt.mpr (hold _ hm))
  | resize hm hv _ => exact absurd hv (Nat.not_lt.mpr (hold _ hm))
  | _ => exact ⟨rfl, rfl⟩

/-- A missing last page is still missing, or the update has been committed. -/
theorem Object.lastMissing_change {pending : Bool} {o o' : Object} (hc : Change env e pending o o')
    (hold : e.OnProfile fun m => m.version ≤ o.updateVersion) (hcount : o.pageCount ≤ 255)
    (hbelow : o.Below) (hpos : 0 < o.pageCount)
    (h : (o.marks (o.pageCount - 1)).complete = false) :
    (o'.marks (o.pageCount - 1)).complete = false ∨
      (o'.version = o.updateVersion ∧ o'.AllComplete) := by
  cases hc with
  | collect _ _ _ _ => exact .inl ((collect_complete o _ _).trans h)
  | store _ _ hlast =>
    have hne : o.pageCount - 1 ≠ o.currentRxPage := fun heq => hlast (by
      show o.currentRxPage = (o.pageCount + 65535) % 65536
      omega)
    refine .inl ?_
    rw [store_marks_ne env _ hne]
    exact h
  | commit _ _ hlast => exact .inr ⟨rfl, allComplete_store env _ hcount hbelow hlast⟩
  | announce hm hv _ => exact absurd hv (Nat.not_lt.mpr (hold _ hm))
  | resize hm hv _ => exact absurd hv (Nat.not_lt.mpr (hold _ hm))
  | _ => exact .inl h

/-- Without a newer profile the version changes only to the one aimed at. -/
theorem Object.version_change {pending : Bool} {o o' : Object} (hc : Change env e pending o o') :
    o'.version = o.version ∨ o'.version = o.updateVersion := by
  cases hc with
  | commit _ _ _ => exact .inr rfl
  | _ => exact .inl rfl

theorem Updating.step (h : Updating v n s) (hbelow : s.object.Below)
    (hst : Rx.step env e s = some s') (hprofile : e.OnProfile fun m => m.version = v) :
    Updating v n s' := by
  have hchange := Rx.step_change hst
  have hupdate : s.object.updateVersion = v := h.updateVersion
  have hcount : s.object.pageCount = n := h.pageCount
  have hold : e.OnProfile fun m => m.version ≤ s.object.updateVersion := fun m hm =>
    Nat.le_of_eq ((hprofile m hm).trans hupdate.symm)
  obtain ⟨hcount', hupdate'⟩ := Object.target_kept hchange hold
  have hversion : s'.version = s.version ∨ s'.version = v :=
    (Object.version_change hchange).imp_right fun hv => hv.trans hupdate
  refine ⟨hupdate'.trans hupdate, hcount'.trans hcount, ?_⟩
  cases h.progress with
  | committed hv hall =>
    refine .committed (hversion.elim (fun h => h.trans hv) id) ?_
    intro i hi
    rw [hcount'] at hi
    exact (congrArg Mark.complete (Object.marks_kept hchange hold (hall i hi))).trans (hall i hi)
  | lastMissing hpos hmissing =>
    rw [← hcount] at hmissing hpos
    rcases Object.lastMissing_change hchange hold (pageCount_le s) hbelow hpos hmissing with h | h
    · refine .lastMissing (hcount ▸ hpos) ?_
      rw [← hcount]
      exact h
    · exact .committed (h.1.trans hupdate) h.2
  | noPages hn holder hoff =>
    rcases hversion with hv | hv
    · refine .noPages hn (hv ▸ holder) ?_
      by_contra hset
      cases (Rx.step_timers hst).summary (Bool.of_not_eq_false hset) with
      | kept hpending _ => exact Bool.false_ne_true (hoff.symm.trans hpending)
      | asked _ hsame _ => exact Nat.ne_of_lt holder (hsame.symm.trans h.updateVersion)
    · refine .committed hv ?_
      intro i hi
      have hzero : s'.object.pageCount = 0 := hcount'.trans (hcount.trans hn)
      omega

/-! ## The network -/

/-- What a message says, `snap` being the state of its sender after the step that sent it. -/
def Honest (v n : Nat) (snap : Node) : Message → Prop
  | .summary m => m.version = v → m.highestAvailable = n →
      snap.object.AllComplete ∧ snap.version = v
  | .request _ => True
  | .packet p => p.packetnum < nPkt
  | .profile m => m.Publishes v n

/-- A frame on the air bears its sender's address and says only what is honest. -/
structure OnAir (v n : Nat) (x : Sent RimeAddr Node Msg) : Prop where
  src : x.msg.src = x.src
  honest : ∀ stale msg, (Packetbuf.ofBytes x.msg.bytes stale).message = some msg →
    Honest v n x.snap msg

/-- The invariant of the node with address `i`. -/
def Party (g : RimeAddr) (v n : Nat) (i : RimeAddr) (s : Node) : Prop :=
  if i = g then Published v n s.object else Receiver v n s

theorem Event.message_of_not_receive (h : e.isReceive = false) : e.message = none := by
  cases e with
  | receive _ _ => cases h
  | _ => rfl

/-- A message that is heard was sent by someone. -/
theorem NetEvent.heard {M : Sent RimeAddr Node Msg → Prop} {i : RimeAddr} {a : NetEvent}
    {msg : Message} (hin : ∀ m, a.input = some m → ∃ x, M x ∧ x.msg = m) (hat : a.At i)
    (hmsg : a.event.2.message = some msg) :
    ∃ x stale, M x ∧ (Packetbuf.ofBytes x.msg.bytes stale).message = some msg := by
  cases a with
  | hear env m stale =>
    obtain ⟨x, hx, rfl⟩ := hin m rfl
    exact ⟨x, stale, hx, hmsg⟩
  | tick env e =>
    have hnone : e.message = none := Event.message_of_not_receive hat
    exact nomatch hnone.symm.trans hmsg

theorem Published.told {env : Env} (h : Published v n s.object) (h' : Published v n s'.object)
    (hv : v < 256) {msg : Message} (htold : Told env e s s' msg) : Honest v n s' msg := by
  cases htold with
  | summary _ => exact fun _ _ => ⟨h'.allComplete, h'.version⟩
  | request _ _ => exact trivial
  | packet _ _ hk => exact hk
  | profile _ _ hok =>
    have hcount : s.pageCount = n := h.pageCount
    obtain ⟨hversion, hpages, hvector⟩ := profileOf_told (v := v) h.version hv
      (fun i hi => h.versions i (hcount ▸ hi)) hok
    rw [hcount] at hpages hvector
    exact ⟨hversion, hpages, hvector⟩

theorem Receiver.told {env : Env} (h : Receiver v n s) (h' : Receiver v n s') (hv : v < 256)
    (hst : Rx.step env e s = some s') {msg : Message} (htold : Told env e s s' msg) :
    Honest v n s' msg := by
  cases htold with
  | summary hcause =>
    intro hversion havailable
    dsimp only at hversion havailable
    rcases h'.phase with hidle | hupdating
    · -- an idle receiver advertises its old version
      have hsame : s'.updateVersion = s'.version := hidle.same
      have holder : s'.version < v := hidle.older
      omega
    · have hcount : s'.object.pageCount = n := hupdating.pageCount
      have hle := s'.object.available_le
      have h255 : s'.object.pageCount ≤ 255 := pageCount_le s'
      have hall : s'.object.AllComplete := Object.available_eq_iff.mp (by omega)
      cases hupdating.progress with
      | committed hcommitted _ => exact ⟨hall, hcommitted⟩
      | lastMissing hpos hmissing =>
        have hlast := hall (n - 1) (by omega)
        rw [hmissing] at hlast
        cases hlast
      | noPages hn holder hoff =>
        rcases hcause with ⟨he, hset⟩ | ⟨p, hp, hc, hlast⟩
        · -- `summary_timer` was already stopped before
          have hobj := Rx.step_refines hst
          rw [he] at hobj
          have hversion' : s'.version = s.version := congrArg Object.version hobj
          have hupdate' : s'.updateVersion = s.updateVersion := congrArg Object.updateVersion hobj
          have haim : s'.updateVersion = v := hupdating.updateVersion
          rcases h.phase with hidle | hupdating
          · have hsame : s.updateVersion = s.version := hidle.same
            omega
          · cases hupdating.progress with
            | committed hcommitted _ => omega
            | lastMissing hpos _ => omega
            | noPages _ _ hoff => rw [hset] at hoff; cases hoff
        · have hobj := Rx.step_refines hst
          rw [Object.next_completes hp hc, if_pos hlast] at hobj
          have hcommit : s'.version = s.updateVersion := congrArg Object.version hobj
          have hupdate' : s'.updateVersion = s.updateVersion := congrArg Object.updateVersion hobj
          have haim : s'.updateVersion = v := hupdating.updateVersion
          omega
  | request _ _ => exact trivial
  | packet _ _ hk => exact hk
  | profile _ hset _ => exact (Bool.false_ne_true (h.profileTimer.symm.trans hset)).elim

/-- The gateway `g` starts with the file `f` at version `v`, every other node as a receiver at an
    older version. -/
def Disseminates (g : RimeAddr) (f : File) (v : Nat) (i : RimeAddr) (s : Node) : Prop :=
  if i = g then Tx.Booted f v s else ∃ f' w, w % 256 < v % 256 ∧ Rx.Booted f' w s

/-- The steps of the network in which receivers meet `PostedOk`. -/
def NetPostedOk (g : RimeAddr) (ia : RimeAddr × NetEvent)
    (n : Protocol.Net RimeAddr Node Msg) : Prop :=
  ia.1 ≠ g → PostedOk ia.2.event (n.node ia.1)

instance (g : RimeAddr) (ia : RimeAddr × NetEvent) (n : Protocol.Net RimeAddr Node Msg) :
    Decidable (NetPostedOk g ia n) := inferInstanceAs (Decidable (_ → _))

section

variable {g i : RimeAddr} {f : File} {a : NetEvent} {init : RimeAddr → Node → Prop}

theorem party_init (hs : Disseminates g f v i s) (hn : i = g → s.pageCount = n) :
    Party g (v % 256) n i s := by
  unfold Disseminates at hs
  unfold Party
  split at hs
  · rename_i hi
    rw [if_pos hi]
    exact hs.fresh.published (hn hi)
  · rename_i hi
    obtain ⟨f', w, holder, hboot⟩ := hs
    have hfresh := hboot.fresh
    have hmarks : ∀ j, j < s.object.entries → s.object.marks j = ⟨allPackets, true, w % 256⟩ :=
      fun j hj => hfresh.marks j (hfresh.entries ▸ hj)
    rw [if_neg hi]
    refine ⟨hboot.profileTimer, hfresh.below, ?_, .inl ?_⟩
    · rw [hfresh.currentRxPage]
      decide
    · refine ⟨hfresh.updateVersion.trans hfresh.version.symm, ?_, ?_, ?_,
        Nat.le_of_eq hfresh.entries.symm⟩
      · rw [show s.object.version = w % 256 from hfresh.version]
        exact holder
      · intro j hj
        rw [hmarks j hj]
      · intro j hj
        rw [hmarks j hj]
        exact holder

/-- One event of one node, given that what it hears is honest. -/
theorem party_step (hv : v < 256) (h : Party g v n i s) (hok : i ≠ g → PostedOk a.event s)
    (hin : ∀ m, a.input = some m → ∃ x, OnAir v n x ∧ x.msg = m)
    (hst : (network g init).step i a s s') :
    Party g v n i s' ∧ ∀ m ∈ (network g init).sent i s', OnAir v n ⟨i, s', m⟩ := by
  obtain ⟨hat, hst⟩ := hst
  have hheard : ∀ msg, a.event.2.message = some msg → ∃ snap, Honest v n snap msg := fun msg hm =>
    have ⟨x, stale, hx, hmsg⟩ := NetEvent.heard hin hat hm
    ⟨x.snap, hx.honest stale msg hmsg⟩
  have hpacket : s.object.InBuffer a.event.2 := fun p hp _ => (hheard _ hp).choose_spec
  have hprofile : a.event.2.OnProfile fun m => m.Publishes v n := fun m hm =>
    (hheard _ hm).choose_spec
  obtain ⟨t, ht⟩ : ∃ t, nodeStep g i a.event.1 a.event.2 s = some t := nodeStep_isSome hpacket
  have hs' : s' = t := hst t ht
  subst hs'
  have hchange := nodeStep_change ht
  unfold Party at h ⊢
  unfold nodeStep at ht
  split at h
  · rename_i hi
    rw [if_pos hi] at ht ⊢
    have h' := h.change hchange fun m hm => (hprofile m hm).version
    exact ⟨h', fun m hm => ⟨(mem_msgs hm).1, fun stale msg hmsg =>
      h.told h' hv (Tx.step_told ht hm hmsg)⟩⟩
  · rename_i hi
    rw [if_neg hi] at ht ⊢
    have h' : Receiver v n s' := by
      refine ⟨?_, Object.below_change h.below hchange,
        Object.current_lt_change hchange h.current, ?_⟩
      · by_contra hset
        exact Bool.false_ne_true (h.profileTimer.symm.trans
          ((Rx.step_timers ht).profile (Bool.of_not_eq_false hset)))
      · rcases h.phase with hidle | hupdating
        · exact hidle.step h.current ht hprofile (hok hi)
        · exact .inr (hupdating.step h.below ht fun m hm => (hprofile m hm).version)
    exact ⟨h', fun m hm => ⟨(mem_msgs hm).1, fun stale msg hmsg =>
      h.told h' hv ht (Rx.step_told ht hm hmsg)⟩⟩

theorem posted_inv {N : Protocol.Net RimeAddr Node Msg}
    (h : Reach (network g (Disseminates g f v)).Init (network g (Disseminates g f v)).Step
      (NetPostedOk g) N) :
    ∃ n, Protocol.Inv (Party g (v % 256) n) (OnAir (v % 256) n) N := by
  refine h.invariant (I := fun N => ∃ n, Protocol.Inv (Party g (v % 256) n) (OnAir (v % 256) n) N) ?_ ?_
  · intro N h0
    refine ⟨(N.node g).pageCount, fun i => party_init (h0.1 i) fun hi => hi ▸ rfl, fun x hx => ?_⟩
    rw [h0.2] at hx
    cases hx
  · intro ia N N' hinv hok hst
    obtain ⟨n, hinv⟩ := hinv
    have hstep : ∀ i (a : NetEvent) s s', Party g (v % 256) n i s →
        (i ≠ g → PostedOk a.event s) →
        (∀ m, a.input = some m → ∃ x, OnAir (v % 256) n x ∧ x.msg = m) →
        (network g (Disseminates g f v)).step i a s s' →
        Party g (v % 256) n i s' ∧ ∀ m ∈ (network g (Disseminates g f v)).sent i s',
          OnAir (v % 256) n ⟨i, s', m⟩ :=
      fun _ _ _ _ h hok hin hst => party_step (Nat.mod_lt _ (by decide)) h hok hin hst
    have hguard : ∀ i (a : NetEvent) N, NetPostedOk g (i, a) N →
        i ≠ g → PostedOk a.event (N.node i) := fun _ _ _ h => h
    exact ⟨n, Protocol.inv_step hguard hstep hinv hok hst⟩

end

theorem disseminates_onePageNet (i : RimeAddr) : Disseminates 1 sampleImage 1 i (onePageNet i) := by
  unfold Disseminates onePageNet
  split
  · exact ⟨quietInit, Prod.ext rfl rfl⟩
  · exact ⟨zeroFile sPage, 0, by decide, Rx.booted_boot _ _⟩

/-- The memory behind the table of one page. -/
def leftover (i : Nat) : Page := if i = 2 then ⟨0, 0, 0, 0, pageComplete, 1⟩ else ⟨0, 0, 0, 0, 0, 0⟩

def leftoverInit : InitEnv := ⟨some 1, some 2, { quietEnv with heap := some leftover }⟩

/-- Gateway 1 with three pages at version 1, receiver 3 with one page, other receivers with two. -/
def threeNodes (i : RimeAddr) : Node :=
  if i = 1 then Tx.boot 768 1
  else if i = 3 then (delugeDisseminate Rx.start leftoverInit (zeroFile 256) 0 Node.zero).2
  else Rx.boot 512 0

theorem disseminates_threeNodes (i : RimeAddr) :
    Disseminates 1 (zeroFile 768) 1 i (threeNodes i) := by
  unfold Disseminates threeNodes
  split
  · exact Tx.booted_boot _ _
  · refine ⟨if i = 3 then zeroFile 256 else zeroFile 512, 0, by decide, ?_⟩
    split
    · exact ⟨leftoverInit, Prod.ext rfl rfl⟩
    · exact Rx.booted_boot _ _

/-- Receiver 3 hears a frame in another environment than the quiet one. -/
def hearsIn (env : Env) (m : Msg) : RimeAddr × NetEvent := (3, .hear env m fun _ => 0)

/-- Receiver 3 asks for a page and gets it. -/
def fetches (pagenum : Nat) : List (RimeAddr × NetEvent) :=
  [tick 3 .rxTimer, hears 1 (requestMsg 3 1 1 pagenum), tick 1 .txTimer] ++
    hearsPage 3 1 1 (zeroFile 768) pagenum

/-- Receiver 2's summary makes receiver 3 wait for pages, so that the `summary_timer` it sets for the
    gateway's summary outlasts the second profile. It then fetches pages 0 and 1 only. -/
def leftoverRun : List (RimeAddr × NetEvent) :=
  [tick 1 .summaryTimer, hears 2 (summaryMsg 1 1 3), tick 2 .summaryTimer,
    hears 1 (summaryMsg 2 0 2), tick 1 .profileTimer,
    hearsIn { quietEnv with heap := none } (profileMsg 1 1 [1, 1, 1]),
    hearsIn { quietEnv with now := 100000 } (summaryMsg 2 0 2),
    hears 3 (summaryMsg 1 1 3), hears 3 (profileMsg 1 1 [1, 1, 1])] ++
    fetches 0 ++ fetches 1 ++ [tick 3 .summaryTimer]

end Adler.Deluge
