/-
  A Deluge network: one gateway and any number of receivers, told apart by their addresses.

  A frame that was sent stays on the air for ever, so it may be heard never, once or many times, at
  any later moment and in any order (`Lib.Soup`); it is never altered. A node hears what others
  broadcast or send to its address. What lies in its packet buffer behind the frame is arbitrary.

  * `Msg`, `NetEvent`, `network`: frames, the events of a node, the protocol.
  * `Told`: what a frame sent by a step says to the dispatcher of a node that hears it.
  * `Rx.step_told`, `Tx.step_told`: every frame sent is one of these.
-/
import Adler.Deluge.Boot
import Adler.Deluge.Effects
import Adler.Lib.Soup

namespace Adler.Deluge

open Lib (Mem Protocol)
open Node

/-- A frame: who sends it, to whom when it is a unicast, and the packet buffer's contents. -/
structure Msg where
  src : RimeAddr
  dst : Option RimeAddr
  bytes : List UInt8
deriving DecidableEq

/-- What the effect puts on the air, for the node with this address. -/
def Effect.msg? (i : RimeAddr) : Effect → Option Msg
  | .broadcast bytes => some ⟨i, none, bytes⟩
  | .unicast dst bytes => some ⟨i, some dst, bytes⟩
  | _ => none

/-- The frames of the latest event, in order. -/
def Node.msgs (i : RimeAddr) (s : Node) : List Msg := s.effects.reverse.filterMap (Effect.msg? i)

/-- An event of a node in the network. -/
inductive NetEvent where
  /-- A frame is heard; `stale` is what the packet buffer held before. -/
  | hear (env : Env) (m : Msg) (stale : Mem)
  /-- Any other event. -/
  | tick (env : Env) (e : Event)

def Event.isReceive : Event → Bool
  | .receive _ _ => true
  | _ => false

namespace NetEvent

/-- The event as the node sees it. -/
def event : NetEvent → Env × Event
  | hear env m stale => (env, .receive m.src (.ofBytes m.bytes stale))
  | tick env e => (env, e)

/-- The event can happen at the node with this address. -/
def At (i : RimeAddr) : NetEvent → Prop
  | hear _ m _ => m.src ≠ i ∧ (m.dst = none ∨ m.dst = some i)
  | tick _ e => e.isReceive = false

instance (i : RimeAddr) : DecidablePred (At i)
  | hear _ _ _ => inferInstanceAs (Decidable (_ ∧ _))
  | tick _ _ => inferInstanceAs (Decidable (_ = _))

/-- The frame it consumes. -/
def input : NetEvent → Option Msg
  | hear _ m _ => some m
  | tick _ _ => none

end NetEvent

/-- The step function of the node with address `i`, `g` being the gateway's. -/
def nodeStep (g i : RimeAddr) (env : Env) (e : Event) (s : Node) : Option Node :=
  if i = g then Tx.step env e s else Rx.step env e s

/-- The network of the gateway `g` and receivers at all other addresses. -/
def network (g : RimeAddr) (init : RimeAddr → Node → Prop) : Protocol RimeAddr Node Msg NetEvent where
  init := init
  step := fun i a s s' => a.At i ∧ Lib.Havoc (nodeStep g i a.event.1 a.event.2 s) s'
  input := NetEvent.input
  sent := Node.msgs

theorem nodeStep_isSome {g i : RimeAddr} {env : Env} {e : Event} {s : Node}
    (h : s.object.InBuffer e) : ∃ s', nodeStep g i env e s = some s' := by
  unfold nodeStep
  split
  · exact Tx.step_isSome h
  · exact Rx.step_isSome h

theorem nodeStep_change {g i : RimeAddr} {env : Env} {e : Event} {s s' : Node}
    (h : nodeStep g i env e s = some s') :
    Object.Change env e s.txTimer s.object s'.object := by
  unfold nodeStep at h
  split at h
  · exact Tx.step_change h
  · exact Rx.step_change h

/-! ## What a frame says -/

section

variable (stale : Mem)

theorem ofBytes_byte_zero (c : UInt8) (bytes : List UInt8) :
    (Packetbuf.ofBytes (c :: bytes) stale).byte 0 = c.toNat := by
  rw [Packetbuf.byte_ofBytes _ _ (by simp)]
  rfl

theorem message_summary_bytes (m : DelugeMsgSummary) :
    (Packetbuf.ofBytes m.bytes stale).message =
      some (.summary ⟨m.version % 256, m.highestAvailable % 256, m.objectId % 256⟩) := by
  have hcmd : (Packetbuf.ofBytes m.bytes stale).byte 0 = 1 := ofBytes_byte_zero stale _ _
  have hlen : (Packetbuf.ofBytes m.bytes stale).len = 4 := rfl
  unfold Packetbuf.message
  rw [hcmd, hlen, DelugeMsgSummary.ofBuf_bytes]
  simp

theorem message_request_bytes (m : DelugeMsgRequest) :
    (Packetbuf.ofBytes m.bytes stale).message =
      some (.request ⟨m.version % 256, m.pagenum % 256, m.requestSet % 256,
        m.objectId % 256⟩) := by
  have hcmd : (Packetbuf.ofBytes m.bytes stale).byte 0 = 2 := ofBytes_byte_zero stale _ _
  have hlen : (Packetbuf.ofBytes m.bytes stale).len = 5 := rfl
  unfold Packetbuf.message
  rw [hcmd, hlen, DelugeMsgRequest.ofBuf_bytes]
  simp

theorem message_packet_bytes (m : DelugeMsgPacket) (h : m.payload.length = sPkt) :
    (Packetbuf.ofBytes m.bytes stale).message =
      some (.packet ⟨m.version % 256, m.pagenum % 256, m.packetnum % 256, m.crc,
        m.objectId % 256, m.payload⟩) := by
  have hcmd : (Packetbuf.ofBytes m.bytes stale).byte 0 = 3 := ofBytes_byte_zero stale _ _
  have hlen : (Packetbuf.ofBytes m.bytes stale).len = 72 := m.length_bytes h
  unfold Packetbuf.message
  rw [hcmd, hlen, DelugeMsgPacket.ofBuf_bytes stale m h]
  simp

theorem message_profile_bytes (m : DelugeMsgProfile) {msg : Message}
    (h : (Packetbuf.ofBytes (m.bytes.take packetbufSize) stale).message = some msg) :
    msg = .profile (.ofBuf (.ofBytes (m.bytes.take packetbufSize) stale)) ∧
      profileLengthOk (.ofBytes (m.bytes.take packetbufSize) stale) := by
  have hcmd : (Packetbuf.ofBytes (m.bytes.take packetbufSize) stale).byte 0 = 4 :=
    ofBytes_byte_zero stale _ _
  have hlen : ¬ (Packetbuf.ofBytes (m.bytes.take packetbufSize) stale).len < 1 := by
    simp [DelugeMsgProfile.bytes]
  unfold Packetbuf.message at h
  rw [hcmd, if_neg hlen, if_neg (by decide), if_neg (by decide), if_neg (by decide),
    if_pos rfl] at h
  split at h
  · rename_i hok
    exact ⟨(Option.some.inj h).symm, hok⟩
  · cases h

end

/-- What the frames of one event of a node say. -/
inductive Told (env : Env) (e : Event) (s s' : Node) : Message → Prop
  /-- `advertise_summary`, from its timer or at the end of an update. -/
  | summary {id : Nat} :
      ((e = .summaryTimer ∧ s.summaryTimer = true) ∨
        ∃ p, e.message = some (.packet p) ∧ s.object.Completes p ∧ s.object.AtLast) →
      Told env e s s'
        (.summary ⟨s'.updateVersion % 256, s'.object.available % 256, id⟩)
  /-- `send_request`. -/
  | request {set id : Nat} : e = .rxTimer → s.rxTimer = true →
      Told env e s s' (.request ⟨(s.object.marks s.currentRxPage).version % 256,
        s.currentRxPage % 256, set, id⟩)
  /-- `send_page`. -/
  | packet {k id : Nat} {crc : UInt16} : e = .txTimer → s.object.Queued → k < nPkt →
      Told env e s s' (.packet ⟨(s.object.marks s.currentTxPage.toNat).version % 256,
        s.currentTxPage.toNat % 256, k, crc, id, Mem.read (s.sendBuffer env) (sPkt * k) sPkt⟩)
  /-- `send_profile`. -/
  | profile {stale : Mem} : e = .profileTimer → s.profileTimer = true →
      profileLengthOk (.ofBytes ((profileOf s).bytes.take packetbufSize) stale) →
      Told env e s s'
        (.profile (.ofBuf (.ofBytes ((profileOf s).bytes.take packetbufSize) stale)))

section

variable {env : Env} {e : Event} {s s' : Node} {i : RimeAddr} {m : Msg} {stale : Mem}
  {msg : Message}

/-- A frame of the node is the broadcast or unicast of one of its effects. -/
theorem mem_msgs (h : m ∈ s.msgs i) :
    m.src = i ∧ ∃ x ∈ s.effects, x = .broadcast m.bytes ∨ ∃ dst, x = .unicast dst m.bytes := by
  obtain ⟨x, hx, hmsg⟩ := List.mem_filterMap.mp h
  have hx := List.mem_reverse.mp hx
  cases x with
  | broadcast bytes =>
    cases hmsg
    exact ⟨rfl, _, hx, .inl rfl⟩
  | unicast dst bytes =>
    cases hmsg
    exact ⟨rfl, _, hx, .inr ⟨dst, rfl⟩⟩
  | _ => cases hmsg

theorem testBit_ne_zero {n k : Nat} (h : n.testBit k = true) : n ≠ 0 := by
  rintro rfl
  simp at h

/-- What the shared handlers send. -/
theorem Emits.told {x : Effect} {bytes : List UInt8} (h : Emits env s e x)
    (hx : x = .broadcast bytes ∨ ∃ dst, x = .unicast dst bytes)
    (hquiet : e = .summaryTimer → s'.object = s.object)
    (hmsg : (Packetbuf.ofBytes bytes stale).message = some msg) : Told env e s s' msg := by
  cases h with
  | request he ht =>
    rcases hx with hx | ⟨dst, hx⟩ <;> cases hx
    rw [message_request_bytes] at hmsg
    cases hmsg
    exact .request he ht
  | @serve k he ht h0 hk hbit =>
    rcases hx with hx | ⟨dst, hx⟩ <;> cases hx
    rw [message_packet_bytes _ _ (packetOf_payload _ _ _ _)] at hmsg
    cases hmsg
    have hlt : k < 256 := Nat.lt_trans hk (by decide)
    rw [packetOf, Nat.mod_eq_of_lt hlt]
    exact .packet he ⟨h0, testBit_ne_zero hbit⟩ hk
  | summary he ht =>
    rcases hx with hx | ⟨dst, hx⟩ <;> cases hx
    rw [message_summary_bytes] at hmsg
    cases hmsg
    have hobj := hquiet he
    have hversion : s'.updateVersion = s.updateVersion := congrArg Object.updateVersion hobj
    rw [← hversion, ← hobj]
    exact .summary (.inl ⟨he, ht⟩)
  | profileSent he ht =>
    rcases hx with hx | ⟨dst, hx⟩ <;> cases hx
    obtain ⟨rfl, hok⟩ := message_profile_bytes _ _ hmsg
    exact .profile he ht hok
  | scan hx' =>
    obtain ⟨j, _, rfl⟩ := hx'
    rcases hx with hx | ⟨dst, hx⟩ <;> cases hx
  | profile _ _ _ hx' =>
    obtain ⟨j, _, rfl⟩ := hx'
    rcases hx with hx | ⟨dst, hx⟩ <;> cases hx
  | _ => rcases hx with hx | ⟨dst, hx⟩ <;> cases hx

theorem Rx.step_told (hst : Rx.step env e s = some s') (hm : m ∈ s'.msgs i)
    (hmsg : (Packetbuf.ofBytes m.bytes stale).message = some msg) : Told env e s s' msg := by
  obtain ⟨_, x, hx, hsent⟩ := mem_msgs hm
  have hobj := Rx.step_refines hst
  cases Rx.step_emits hst hx with
  | shared h => exact h.told hsent (fun he => by rw [hobj, he]; rfl) hmsg
  | @announce p hp hc hl =>
    rcases hsent with hsent | ⟨dst, hsent⟩
    swap
    · cases hsent
    rw [← Effect.broadcast.inj hsent, message_summary_bytes] at hmsg
    cases hmsg
    rw [Object.next_completes hp hc, if_pos hl] at hobj
    have hversion : s'.updateVersion = s.updateVersion := congrArg Object.updateVersion hobj
    have havailable : (s.object.store env p).available = s'.object.available := by
      rw [hobj]
      rfl
    rw [← hversion, havailable]
    exact .summary (.inr ⟨_, hp, hc, hl⟩)
  | announceScan _ _ _ hx' =>
    obtain ⟨j, _, rfl⟩ := hx'
    rcases hsent with hsent | ⟨dst, hsent⟩ <;> cases hsent
  | offer _ _ _ _ => rcases hsent with hsent | ⟨dst, hsent⟩ <;> cases hsent

theorem Tx.step_told (hst : Tx.step env e s = some s') (hm : m ∈ s'.msgs i)
    (hmsg : (Packetbuf.ofBytes m.bytes stale).message = some msg) : Told env e s s' msg := by
  obtain ⟨_, x, hx, hsent⟩ := mem_msgs hm
  have hobj := Tx.step_refines hst
  cases Tx.step_emits hst hx with
  | shared h => exact h.told hsent (fun he => by rw [hobj, he]; rfl) hmsg
  | offer _ _ _ => rcases hsent with hsent | ⟨dst, hsent⟩ <;> cases hsent
  | post _ _ _ _ => rcases hsent with hsent | ⟨dst, hsent⟩ <;> cases hsent

end

/-- A profile that passes the receiver's test, of a node whose pages all have its version: the version
    bytes of all pages are in the frame. -/
theorem profileOf_told {s : Node} {v : Nat} {stale : Mem} (hversion : s.version = v) (hv : v < 256)
    (hmarks : ∀ i, i < s.pageCount → (s.object.marks i).version = v)
    (hok : profileLengthOk (.ofBytes ((profileOf s).bytes.take packetbufSize) stale)) :
    let m := DelugeMsgProfile.ofBuf (.ofBytes ((profileOf s).bytes.take packetbufSize) stale)
    m.version = v ∧ m.npages = s.pageCount ∧
      (0 < v → ∀ i, i < s.pageCount → m.versionVector i = v) := by
  have hcount := pageCount_le s
  have hmod : s.pageCount % 256 = s.pageCount := Nat.mod_eq_of_lt (by omega)
  have hnum : (profileOf s).npages = s.pageCount := hmod
  obtain ⟨hver, hpages, hvector⟩ :=
    DelugeMsgProfile.ofBuf_bytes stale (profileOf s) packetbufSize (by decide)
  rw [hnum, hmod] at hpages
  have hvector : ∀ i, i < s.pageCount → 4 + i < 128 → (DelugeMsgProfile.ofBuf
      (.ofBytes ((profileOf s).bytes.take packetbufSize) stale)).versionVector i = v := by
    intro i hi hlt
    have hpage : (profileOf s).versionVector i = v := hmarks i hi
    rw [hvector i (hnum ▸ hi) hlt, hpage, Nat.mod_eq_of_lt hv]
  refine ⟨?_, hpages, fun hpos i hi => hvector i hi ?_⟩
  · rw [hver]
    change s.version % 256 = v
    rw [hversion, Nat.mod_eq_of_lt hv]
  · -- the test compares the length with the page count times the first version byte
    have hlen := hok.2
    have h0 := hvector 0 (by omega) (by omega)
    rw [Packetbuf.len_ofBytes, List.length_take, DelugeMsgProfile.length_bytes, hnum] at hlen
    rw [h0, hpages] at hlen
    have hle : s.pageCount ≤ s.pageCount * v := Nat.le_mul_of_pos_right _ hpos
    simp only [sizeofProfile, packetbufSize] at hlen
    omega

/-! ## Scheduled runs -/

/-- A step of the network as a function. -/
def netNext (g : RimeAddr) (init : RimeAddr → Node → Prop) :
    RimeAddr × NetEvent → Protocol.Net RimeAddr Node Msg → Option (Protocol.Net RimeAddr Node Msg) :=
  (network g init).next
    (fun i a s => if a.At i then nodeStep g i a.event.1 a.event.2 s else none)
    fun a soup => match a.input with
      | some m => soup.any fun x => decide (x.msg = m)
      | none => true

theorem netNext_step (g : RimeAddr) (init : RimeAddr → Node → Prop) (ia : RimeAddr × NetEvent)
    (n n' : Protocol.Net RimeAddr Node Msg) (h : netNext g init ia n = some n') :
    (network g init).Step ia n n' := by
  refine Protocol.next_step ?_ ?_ h
  · intro i a s s' hl
    split at hl
    · exact ⟨‹_›, Lib.Havoc.of_eq hl⟩
    · cases hl
  · intro a soup hh m hm
    have hm : a.input = some m := hm
    rw [hm] at hh
    obtain ⟨x, hx, heq⟩ := List.any_eq_true.mp hh
    exact ⟨x, hx, of_decide_eq_true heq⟩

/-- A run of the network from the given nodes, no frame having been sent yet. -/
theorem exists_of_net_run {g : RimeAddr} {init : RimeAddr → Node → Prop} {nodes : RimeAddr → Node}
    (h0 : ∀ i, init i (nodes i))
    (ok : RimeAddr × NetEvent → Protocol.Net RimeAddr Node Msg → Prop) [∀ a n, Decidable (ok a n)]
    (as : List (RimeAddr × NetEvent)) (p : Protocol.Net RimeAddr Node Msg → Bool)
    (hp : (Lib.runList (Lib.guarded ok (netNext g init)) as ⟨nodes, []⟩).map p = some true) :
    ∃ n, Lib.Reach (network g init).Init (network g init).Step ok n ∧ p n = true := by
  have hinit : (network g init).Init ⟨nodes, []⟩ := ⟨h0, rfl⟩
  exact Lib.Reach.exists_of_run ok (netNext_step g init) as p hinit hp

/-- A node's timer fires, or its next round starts. -/
def tick (i : RimeAddr) (e : Event) : RimeAddr × NetEvent := (i, .tick quietEnv e)

/-- Node `i` hears a frame. -/
def hears (i : RimeAddr) (m : Msg) : RimeAddr × NetEvent := (i, .hear quietEnv m fun _ => 0)

def summaryMsg (src : RimeAddr) (version available : Nat) : Msg :=
  ⟨src, none, DelugeMsgSummary.bytes ⟨version, available, 0⟩⟩

def profileMsg (src : RimeAddr) (version : Nat) (versions : List Nat) : Msg :=
  ⟨src, none, DelugeMsgProfile.bytes ⟨version, versions.length, 0, fun i => versions.getD i 0⟩⟩

/-- A request for all packets of a page. -/
def requestMsg (src dst : RimeAddr) (version pagenum : Nat) : Msg :=
  ⟨src, some dst, DelugeMsgRequest.bytes ⟨version, pagenum, 255, 0⟩⟩

/-- Packet `k` of a page of the file. -/
def packetMsg (src : RimeAddr) (version : Nat) (f : File) (pagenum k : Nat) : Msg :=
  let payload := Mem.read f.data (pagenum * sPage + sPkt * k) sPkt
  ⟨src, none, DelugeMsgPacket.bytes ⟨version, pagenum, k, crc16Data payload 0, 0, payload⟩⟩

/-- Node `i` hears all packets of a page. -/
def hearsPage (i src : RimeAddr) (version : Nat) (f : File) (pagenum : Nat) :
    List (RimeAddr × NetEvent) :=
  (List.range nPkt).map fun k => hears i (packetMsg src version f pagenum k)

/-- An image of one page. -/
def sampleImage : File := ⟨fun i => if i = 0 then 7 else 0, sPage⟩

/-- Gateway 1 with that image at version 1, and receivers with a page of zeros at version 0. -/
def onePageNet (i : RimeAddr) : Node :=
  if i = 1 then (delugeDisseminate Tx.start quietInit sampleImage 1 Node.zero).2
  else Rx.boot sPage 0

/-- Receiver 2 is updated: it answers the gateway's summary, hears the profile, asks for its page and
    is sent it. -/
def updateRun : List (RimeAddr × NetEvent) :=
  [tick 1 .summaryTimer, hears 2 (summaryMsg 1 1 1), tick 2 .summaryTimer,
    hears 1 (summaryMsg 2 0 1), tick 1 .profileTimer, hears 2 (profileMsg 1 1 [1]),
    tick 2 .rxTimer, hears 1 (requestMsg 2 1 1 0), tick 1 .txTimer] ++
    hearsPage 2 1 1 sampleImage 0

end Adler.Deluge
