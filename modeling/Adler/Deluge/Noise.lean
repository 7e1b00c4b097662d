/-
  Dissemination over a channel that garbles payloads (`Garbled`), on top of losing, repeating and
  reordering frames.

  `handle_packet` copies the payload into `current_page` before it looks at the CRC, so a garbled
  packet that the node has already spoils its slot for good. One that it is still missing does no
  lasting harm: the slot is filled again by the packet that is marked.

  * `NoisyEvent`, `noisyNetwork`: the network of `Network.lean`, and a garbled packet as one more thing
    a node may hear.
  * `Checked`: the packets on the air carry the CRC of their payload.
  * `noisy_image_integrity`: the image of a receiver that has the gateway's version, when no garbled
    packet is heard by a node that has its slot.
-/
import Adler.Deluge.Crc
import Adler.Deluge.Image

namespace Adler.Deluge

open Lib (Mem Protocol Reach Later Sent)

/-! ## The channel -/

/-- A frame with other bytes in the place of the payload. -/
def withPayload (bytes payload : List UInt8) : List UInt8 :=
  bytes.take 7 ++ payload ++ bytes.drop (7 + sPkt)

theorem withPayload_bytes {q : DelugeMsgPacket} (hlen : q.payload.length = sPkt)
    (payload : List UInt8) :
    withPayload q.bytes payload = { q with payload := payload }.bytes := by
  have htake : q.bytes.take 7 = [.ofNat delugeCmdPacket, .ofNat q.version, .ofNat q.pagenum,
      .ofNat q.packetnum, .ofNat q.crc.toNat, .ofNat (q.crc.toNat / 256), .ofNat q.objectId] := by
    simp [DelugeMsgPacket.bytes]
  have hdrop : q.bytes.drop (7 + sPkt) = [0] := by
    rw [← List.drop_drop, ← hlen]
    simp [DelugeMsgPacket.bytes]
  rw [withPayload, htake, hdrop]
  rfl

/-- An event of a node in the network. -/
inductive NoisyEvent where
  /-- The frame that is heard, if any, is as it was sent. -/
  | clear (a : NetEvent)
  /-- A packet is heard with another payload. -/
  | garbled (env : Env) (m : Msg) (payload : List UInt8) (stale : Mem)

namespace NoisyEvent

/-- The event as the node sees it. -/
def event : NoisyEvent → Env × Event
  | clear a => a.event
  | garbled env m payload stale =>
    (env, .receive m.src (.ofBytes (withPayload m.bytes payload) stale))

/-- The payload is a garbled one of the packet in the frame. -/
def FromPacket (m : Msg) (payload : List UInt8) (stale : Mem) : Prop :=
  payload.length = sPkt ∧ ∃ p, (Packetbuf.ofBytes m.bytes stale).message = some (.packet p) ∧
    Garbled (blockBits p.payload) (blockBits payload)

/-- The event can happen at the node with this address. -/
def At (i : RimeAddr) : NoisyEvent → Prop
  | clear a => a.At i
  | garbled _ m payload stale =>
    m.src ≠ i ∧ (m.dst = none ∨ m.dst = some i) ∧ FromPacket m payload stale

/-- The frame it consumes. -/
def input : NoisyEvent → Option Msg
  | clear a => a.input
  | garbled _ m _ _ => some m

end NoisyEvent

/-- The network of `network` over the garbling channel. -/
def noisyNetwork (g : RimeAddr) (init : RimeAddr → Node → Prop) :
    Protocol RimeAddr Node Msg NoisyEvent where
  init := init
  step := fun i a s s' => a.At i ∧ Lib.Havoc (nodeStep g i a.event.1 a.event.2 s) s'
  input := NoisyEvent.input
  sent := Node.msgs

def NoisyEvent.isGarbled : NoisyEvent → Bool
  | clear _ => false
  | garbled _ _ _ _ => true

/-- File operations succeed, and the node is still missing a packet that it hears garbled. -/
structure NoisyOkAt (a : NoisyEvent) (s : Node) : Prop where
  files : a.event.1.FilesOk
  missing : a.isGarbled = true → a.event.2.OnPacket fun p => s.object.Wants p →
    (s.object.marks s.currentRxPage).packetSet.testBit p.packetnum = false

instance (a : NoisyEvent) (s : Node) : Decidable (NoisyOkAt a s) :=
  decidable_of_iff (_ ∧ (_ → Event.OnPacket _ _))
    ⟨fun h => ⟨h.1, h.2⟩, fun h => ⟨h.files, h.missing⟩⟩

def NoisyOk (ia : RimeAddr × NoisyEvent) (n : Protocol.Net RimeAddr Node Msg) : Prop :=
  NoisyOkAt ia.2 (n.node ia.1)

instance (ia : RimeAddr × NoisyEvent) (n : Protocol.Net RimeAddr Node Msg) :
    Decidable (NoisyOk ia n) := inferInstanceAs (Decidable (NoisyOkAt _ _))

/-! ## The CRC on the air -/

/-- A packet in the frame is one that a node put together, with the CRC of its payload. -/
def Checked (bytes : List UInt8) : Prop :=
  ∀ stale p, (Packetbuf.ofBytes bytes stale).message = some (.packet p) →
    ∃ q : DelugeMsgPacket, bytes = q.bytes ∧ q.payload.length = sPkt ∧ q.CrcOk

section

variable {env : Env} {e : Event} {s s' : Node} {g i : RimeAddr} {m : Msg}

theorem Emits.checked {x : Effect} {bytes : List UInt8} (h : Emits env s e x)
    (hx : x = .broadcast bytes ∨ ∃ dst, x = .unicast dst bytes) : Checked bytes := by
  intro stale p hp
  cases h with
  | @serve k _ _ _ _ _ =>
    rcases hx with hx | ⟨dst, hx⟩ <;> cases hx
    exact ⟨_, rfl, packetOf_payload _ _ _ _, rfl⟩
  | request _ _ =>
    rcases hx with hx | ⟨dst, hx⟩ <;> cases hx
    rw [message_request_bytes] at hp
    cases hp
  | summary _ _ =>
    rcases hx with hx | ⟨dst, hx⟩ <;> cases hx
    rw [message_summary_bytes] at hp
    cases hp
  | profileSent _ _ =>
    rcases hx with hx | ⟨dst, hx⟩ <;> cases hx
    cases (message_profile_bytes _ _ hp).1
  | scan hx' | profile _ _ _ hx' =>
    obtain ⟨j, _, rfl⟩ := hx'
    rcases hx with hx | ⟨dst, hx⟩ <;> cases hx
  | _ => rcases hx with hx | ⟨dst, hx⟩ <;> cases hx

/-- Every packet that a node sends carries the CRC of its payload. -/
theorem sent_checked (h : nodeStep g i env e s = some s') (hm : m ∈ s'.msgs i) :
    Checked m.bytes := by
  obtain ⟨_, x, hx, hsent⟩ := mem_msgs hm
  unfold nodeStep at h
  split at h
  · cases Tx.step_emits h hx with
    | shared h => exact h.checked hsent
    | _ => rcases hsent with hsent | ⟨dst, hsent⟩ <;> cases hsent
  · cases Rx.step_emits h hx with
    | shared h => exact h.checked hsent
    | announce =>
      rcases hsent with hsent | ⟨dst, hsent⟩
      · intro stale p hp
        rw [← Effect.broadcast.inj hsent, message_summary_bytes] at hp
        cases hp
      · cases hsent
    | announceScan _ _ _ hx' =>
      obtain ⟨j, _, rfl⟩ := hx'
      rcases hsent with hsent | ⟨dst, hsent⟩ <;> cases hsent
    | offer => rcases hsent with hsent | ⟨dst, hsent⟩ <;> cases hsent

/-- What a node hears of a garbled packet: the packet with a payload that its CRC does not match. -/
theorem garbled_message {payload : List UInt8} {stale : Mem} (hm : Checked m.bytes)
    (h : NoisyEvent.FromPacket m payload stale) :
    ∃ p, (Packetbuf.ofBytes m.bytes stale).message = some (.packet p) ∧
      (Packetbuf.ofBytes (withPayload m.bytes payload) stale).message =
        some (.packet { p with payload := payload }) ∧
      ¬ DelugeMsgPacket.CrcOk { p with payload := payload } := by
  obtain ⟨hlen, p, hp, hgarbled⟩ := h
  obtain ⟨q, hbytes, hqlen, hcrc⟩ := hm stale p hp
  rw [hbytes] at hp ⊢
  rw [message_packet_bytes _ _ hqlen] at hp
  cases hp
  refine ⟨_, message_packet_bytes _ _ hqlen, ?_, ?_⟩
  · rw [withPayload_bytes hqlen]
    exact message_packet_bytes _ _ hlen
  · intro hok
    exact crc_garbled (Nat.le_of_eq hqlen) hgarbled 0 (hcrc.symm.trans hok)

end

/-! ## A garbled packet at a node -/

section

variable {f : File} {v n : Nat} {env : Env} {e : Event} {s s' : Node} {p : DelugeMsgPacket}

/-- All that a packet with a wrong CRC can do is to overwrite its slot. -/
theorem Object.Change.of_not_crcOk {pending : Bool} {o o' : Object}
    (hc : Object.Change env e pending o o') (hm : e.message = some (.packet p)) (hcrc : ¬ p.CrcOk) :
    o' = o ∨ (o.Wants p ∧ o' = o.spoil p) := by
  cases hc with
  | same => exact .inl rfl
  | spoil hm' hw _ =>
    cases hm.symm.trans hm'
    exact .inr ⟨hw, rfl⟩
  | collect hm' _ hok _ =>
    cases hm.symm.trans hm'
    exact absurd hok hcrc
  | store hm' hc _ | commit hm' hc _ =>
    cases hm.symm.trans hm'
    exact absurd hc.2.1 hcrc
  | queue hm' _ | announce hm' _ _ | resize hm' _ _ => cases hm.symm.trans hm'
  | serve he _ _ =>
    subst he
    cases hm

/-- A slot that is still missing may hold anything. -/
theorem Fetching.spoil_missing {o : Object} (h : Fetching f v n o) (hlen : p.payload.length = sPkt)
    (hmissing : (o.marks o.currentRxPage).packetSet.testBit p.packetnum = false) :
    Fetching f v n (o.spoil p) :=
  { h with
    slots := by
      intro hlt k hk hbit
      have hbit : (o.marks o.currentRxPage).packetSet.testBit k = true := hbit
      change f.Holds _ (Mem.read (o.bufferWith p) (sPkt * k) sPkt)
      rw [Object.slot_bufferWith o hlen, if_neg]
      · exact h.slots hlt k hk hbit
      · rintro rfl
        exact Bool.false_ne_true (hmissing.symm.trans hbit) }

/-- A node that has all pages up to `n` does not change. -/
theorem Object.Change.same_of_complete {pending : Bool} {o o' : Object}
    (hc : Object.Change env e pending o o') (hm : e.message = some (.packet p)) (hcrc : ¬ p.CrcOk)
    (hpage : p.pagenum < n) (hcomplete : ∀ i, i < n → (o.marks i).complete = true) : o' = o := by
  refine (hc.of_not_crcOk hm hcrc).resolve_right ?_
  rintro ⟨hw, _⟩
  rw [hw.1] at hpage
  exact Bool.false_ne_true (hw.2.2.symm.trans (hcomplete _ hpage))

theorem Client.garbled (h : Client f v n s) (hm : e.message = some (.packet p)) (hcrc : ¬ p.CrcOk)
    (hpage : p.pagenum < n) (hmissing : s.object.Wants p →
      (s.object.marks s.currentRxPage).packetSet.testBit p.packetnum = false)
    (hst : Rx.step env e s = some s') : Client f v n s' := by
  have hchange := Rx.step_change hst
  have htimers := Rx.step_timers hst
  refine ⟨?_, ?_⟩
  · by_contra hset
    exact Bool.false_ne_true (h.profileTimer.symm.trans
      (htimers.profile (Bool.of_not_eq_false hset)))
  · rcases h.phase with ⟨hwaiting, hoff⟩ | hfetching
    · refine .inl ⟨?_, ?_⟩
      · rw [hchange.same_of_complete hm hcrc hpage hwaiting.complete]
        exact hwaiting
      · by_contra hset
        cases htimers.rx (Bool.of_not_eq_false hset) with
        | kept hset _ => exact Bool.false_ne_true (hoff.symm.trans hset)
        | stored hm' hc _ _ =>
          cases hm.symm.trans hm'
          exact hcrc hc.2.1
        | offered hm' _ _ _ | accepted hm' _ _ => cases hm.symm.trans hm'
    · refine .inr ?_
      rcases hchange.of_not_crcOk hm hcrc with hsame | ⟨hw, hspoil⟩
      · rw [hsame]
        exact hfetching
      · rw [hspoil]
        exact hfetching.spoil_missing (Event.length_payload hm) (hmissing hw)

theorem Seeding.garbled (h : Seeding f v n s.object) (hm : e.message = some (.packet p))
    (hcrc : ¬ p.CrcOk) (hpage : p.pagenum < n) (hst : Tx.step env e s = some s') :
    Seeding f v n s'.object := by
  rw [(Tx.step_change hst).same_of_complete hm hcrc hpage h.complete]
  exact h

end

/-! ## The network -/

section

variable {g i : RimeAddr} {f : File} {v n : Nat} {s s' : Node} {init : RimeAddr → Node → Prop}

/-- A frame on the air is genuine, and its packet checked. -/
def OnAirChecked (f : File) (v n : Nat) (x : Sent RimeAddr Node Msg) : Prop :=
  OnAirGenuine f v n x ∧ Checked x.msg.bytes

/-- What a node hears of the garbled packets of genuine frames. -/
theorem garbled_heard (env : Env) {m : Msg} {payload : List UInt8} {stale : Mem}
    (hin : ∃ x, OnAirChecked f v n x ∧ x.msg = m)
    (hfrom : NoisyEvent.FromPacket m payload stale) :
    ∃ p, (NoisyEvent.garbled env m payload stale).event.2.message = some (.packet p) ∧
      ¬ p.CrcOk ∧ p.pagenum < n ∧ p.packetnum < nPkt := by
  obtain ⟨x, ⟨hgenuine, hchecked⟩, rfl⟩ := hin
  obtain ⟨p, hp, hmsg, hcrc⟩ := garbled_message hchecked hfrom
  have hp : Genuine f v n (.packet p) := hgenuine stale _ hp
  exact ⟨_, hmsg, hcrc, hp.2.1, hp.2.2.1⟩

/-- An event of the noisy network is a defined step of its node. -/
theorem noisy_defined {a : NoisyEvent}
    (hin : ∀ m, a.input = some m → ∃ x, OnAirChecked f v n x ∧ x.msg = m)
    (hst : (noisyNetwork g init).step i a s s') :
    nodeStep g i a.event.1 a.event.2 s = some s' := by
  obtain ⟨hat, hst⟩ := hst
  have hbuffer : s.object.InBuffer a.event.2 := by
    intro p hp _
    cases a with
    | clear a =>
      obtain ⟨x, stale, hx, hmsg⟩ := NetEvent.heard hin hat hp
      exact (hx.1 stale _ hmsg).2.2.1
    | garbled env m payload stale =>
      obtain ⟨q, hq, _, _, hnum⟩ := garbled_heard env (hin m rfl) hat.2.2
      cases hp.symm.trans hq
      exact hnum
  obtain ⟨t, ht⟩ : ∃ t, nodeStep g i a.event.1 a.event.2 s = some t := nodeStep_isSome hbuffer
  exact ht.trans (congrArg some (hst t ht).symm)

/-- One event of one node. -/
theorem noisyParty_step {a : NoisyEvent} (hv : 0 < v) (hv' : v < 256) (hn : n ≤ 255)
    (h : ImageParty g f v n i s) (hok : NoisyOkAt a s)
    (hin : ∀ m, a.input = some m → ∃ x, OnAirChecked f v n x ∧ x.msg = m)
    (hst : (noisyNetwork g init).step i a s s') :
    ImageParty g f v n i s' ∧
      ∀ m ∈ (noisyNetwork g init).sent i s', OnAirChecked f v n ⟨i, s', m⟩ := by
  have ht := noisy_defined hin hst
  have hchecked : ∀ m ∈ s'.msgs i, Checked m.bytes := fun m hm => sent_checked ht hm
  suffices hparty : ImageParty g f v n i s' ∧ ∀ m ∈ s'.msgs i, OnAirGenuine f v n ⟨i, s', m⟩ from
    ⟨hparty.1, fun m hm => ⟨hparty.2 m hm, hchecked m hm⟩⟩
  cases a with
  | clear a =>
    have hclear : (network g init).step i a s s' := hst
    refine imageParty_step hv hv' hn h hok.files (fun m hm => ?_) hclear
    obtain ⟨x, hx, hxm⟩ := hin m hm
    exact ⟨x, hx.1, hxm⟩
  | garbled env m payload stale =>
    obtain ⟨p, hp, hcrc, hpage, _⟩ := garbled_heard env (hin m rfl) hst.1.2.2
    have hmissing := hok.missing rfl p hp
    unfold ImageParty at h ⊢
    unfold nodeStep at ht
    split at h
    · rename_i hi
      rw [if_pos hi] at ht ⊢
      exact ⟨h.garbled hp hcrc hpage ht, fun m hm stale msg hmsg =>
        h.told hv' hok.files (Tx.step_told ht hm hmsg)⟩
    · rename_i hi
      rw [if_neg hi] at ht ⊢
      exact ⟨h.garbled hp hcrc hpage hmissing ht, fun m hm stale msg hmsg =>
        h.told hv' hn hok.files (Rx.step_told ht hm hmsg)⟩

theorem noisy_inv (hv : 0 < v % 256) {N : Protocol.Net RimeAddr Node Msg}
    (h : Reach (noisyNetwork g (Spreads g f v)).Init (noisyNetwork g (Spreads g f v)).Step NoisyOk
      N) :
    Protocol.Inv (ImageParty g f (v % 256) (pagesOf f)) (OnAirChecked f (v % 256) (pagesOf f)) N := by
  have hstep : ∀ i (a : NoisyEvent) s s', ImageParty g f (v % 256) (pagesOf f) i s → NoisyOkAt a s →
      (∀ m, a.input = some m → ∃ x, OnAirChecked f (v % 256) (pagesOf f) x ∧ x.msg = m) →
      (noisyNetwork g (Spreads g f v)).step i a s s' →
      ImageParty g f (v % 256) (pagesOf f) i s' ∧
        ∀ m ∈ (noisyNetwork g (Spreads g f v)).sent i s',
          OnAirChecked f (v % 256) (pagesOf f) ⟨i, s', m⟩ :=
    fun _ _ _ _ h hok hin hst =>
      noisyParty_step hv (Nat.mod_lt _ (by decide)) (pagesOf_le f) h hok hin hst
  refine Protocol.inv_of_reach (fun _ _ hs => imageParty_init hs) ?_ hstep h
  exact fun _ _ _ hok => hok

/-- A receiver that has the gateway's version keeps it. -/
theorem noisy_version_kept (hv : 0 < v) {N N' : Protocol.Net RimeAddr Node Msg}
    (hinv : Protocol.Inv (ImageParty g f v n) (OnAirChecked f v n) N)
    {ja : RimeAddr × NoisyEvent} (hst : (noisyNetwork g init).Step ja N N') (hi : i ≠ g)
    (hversion : (N.node i).version = v) : (N'.node i).version = v := by
  obtain ⟨j, a⟩ := ja
  obtain ⟨s', hlocal, hin, rfl⟩ := hst
  by_cases hij : i = j
  · subst hij
    have hclient : Client f v n (N.node i) := by
      have hparty := hinv.node i
      unfold ImageParty at hparty
      rwa [if_neg hi] at hparty
    have hchange := nodeStep_change (noisy_defined (hinv.consumed hin) hlocal)
    have hupdate : (N.node i).updateVersion = v := hclient.updateVersion_eq hv hversion
    have hnew : s'.version = v := by
      rcases Object.version_change hchange with hsame | hraised
      · exact hsame.trans hversion
      · exact hraised.trans hupdate
    simpa only [Function.update_self] using hnew
  · simpa only [Function.update_of_ne hij] using hversion

/-- **Image integrity over a garbling channel.** -/
theorem noisy_image_integrity (hlen : f.len ≤ 65280) (hv : 0 < v % 256)
    {N : Protocol.Net RimeAddr Node Msg}
    (h : Reach (noisyNetwork g (Spreads g f v)).Init (noisyNetwork g (Spreads g f v)).Step NoisyOk
      N) (hi : i ≠ g) (hversion : (N.node i).version = v % 256) :
    HasImage f (N.node i) ∧
      ∀ N', Later (noisyNetwork g (Spreads g f v)).Step NoisyOk N N' →
        (N'.node i).version = v % 256 ∧ HasImage f (N'.node i) := by
  have hhas : ∀ N, Reach (noisyNetwork g (Spreads g f v)).Init
      (noisyNetwork g (Spreads g f v)).Step NoisyOk N → (N.node i).version = v % 256 →
      HasImage f (N.node i) := fun N h hversion => by
    have hparty := (noisy_inv hv h).node i
    unfold ImageParty at hparty
    rw [if_neg hi] at hparty
    exact hparty.hasImage hlen hv hversion
  refine ⟨hhas N h hversion, fun N' hl => ?_⟩
  have hlater : Reach (noisyNetwork g (Spreads g f v)).Init (noisyNetwork g (Spreads g f v)).Step
      NoisyOk N' ∧ (N'.node i).version = v % 256 := by
    refine hl.invariant (I := fun N => Reach (noisyNetwork g (Spreads g f v)).Init
      (noisyNetwork g (Spreads g f v)).Step NoisyOk N ∧ (N.node i).version = v % 256)
      (fun ia N N' hN hok hst => ⟨.step hN.1 hok hst, ?_⟩) ⟨h, hversion⟩
    exact noisy_version_kept hv (noisy_inv hv hN.1) hst hi hN.2
  exact ⟨hlater.2, hhas N' hlater.1 hlater.2⟩

end

/-! ## Scheduled runs -/

/-- What the event delivers can have been heard: a garbled packet with an odd number of wrong bits. -/
def NoisyEvent.atOdd (i : RimeAddr) : NoisyEvent → Bool
  | clear a => decide (a.At i)
  | garbled _ m payload stale =>
    decide (m.src ≠ i ∧ (m.dst = none ∨ m.dst = some i)) && decide (payload.length = sPkt) &&
      match (Packetbuf.ofBytes m.bytes stale).message with
      | some (.packet p) => decide (p.payload.length = sPkt) && decide
        ((List.zipWith Bool.xor (blockBits p.payload) (blockBits payload)).count true % 2 = 1)
      | _ => false

theorem NoisyEvent.at_of_atOdd {i : RimeAddr} {a : NoisyEvent} (h : a.atOdd i = true) : a.At i := by
  cases a with
  | clear a =>
    have hat : NetEvent.At i a := of_decide_eq_true h
    exact hat
  | garbled env m payload stale =>
    simp only [atOdd, Bool.and_eq_true, decide_eq_true_eq] at h
    obtain ⟨⟨⟨hsrc, hdst⟩, hlen⟩, hodd⟩ := h
    refine ⟨hsrc, hdst, hlen, ?_⟩
    split at hodd
    · rename_i p hp
      simp only [Bool.and_eq_true, decide_eq_true_eq] at hodd
      exact ⟨p, hp, .odd (by rw [length_blockBits, length_blockBits, hodd.1, hlen]) hodd.2⟩
    · cases hodd

/-- A step of the noisy network as a function. -/
def noisyNext (g : RimeAddr) (init : RimeAddr → Node → Prop) : RimeAddr × NoisyEvent →
    Protocol.Net RimeAddr Node Msg → Option (Protocol.Net RimeAddr Node Msg) :=
  (noisyNetwork g init).next
    (fun i a s => if a.atOdd i then nodeStep g i a.event.1 a.event.2 s else none)
    fun a soup => match a.input with
      | some m => soup.any fun x => decide (x.msg = m)
      | none => true

theorem noisyNext_step (g : RimeAddr) (init : RimeAddr → Node → Prop) (ia : RimeAddr × NoisyEvent)
    (n n' : Protocol.Net RimeAddr Node Msg) (h : noisyNext g init ia n = some n') :
    (noisyNetwork g init).Step ia n n' := by
  refine Protocol.next_step ?_ ?_ h
  · intro i a s s' hl
    split at hl
    · exact ⟨NoisyEvent.at_of_atOdd ‹_›, Lib.Havoc.of_eq hl⟩
    · cases hl
  · intro a soup hh m hm
    have hm : a.input = some m := hm
    rw [hm] at hh
    obtain ⟨x, hx, heq⟩ := List.any_eq_true.mp hh
    exact ⟨x, hx, of_decide_eq_true heq⟩

/-- The update of receiver 2, who first hears packet 0 with a wrong bit in its first byte. -/
def noisyRun : List (RimeAddr × NoisyEvent) :=
  updateRun.map (fun ia => (ia.1, .clear ia.2)) |>.insertIdx 9
    (2, .garbled quietEnv (packetMsg 1 1 sampleImage 0 0) (6 :: List.replicate 63 0) fun _ => 0)

theorem noisy_image_integrity_run :
    ∃ N : Protocol.Net RimeAddr Node Msg, (N.node 2).version = 1 ∧
      HasImage sampleImage (N.node 2) := by
  have hinit : (noisyNetwork 1 (Spreads 1 sampleImage 1)).Init ⟨onePageNet, []⟩ :=
    ⟨spreads_onePageNet, rfl⟩
  obtain ⟨N, hN, hp⟩ := Reach.exists_of_run NoisyOk (noisyNext_step 1 (Spreads 1 sampleImage 1))
    noisyRun (fun N => decide ((N.node 2).version = 1)) hinit (by decide +kernel)
  have hversion := of_decide_eq_true hp
  exact ⟨N, hversion, (noisy_image_integrity (by decide) (by decide) hN (by decide) hversion).1⟩

end Adler.Deluge
