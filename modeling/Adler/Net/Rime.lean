/-
  The Rime stack from one node to another: `abc.c`, `broadcast.c`, `unicast.c`, `channel.c`, `rime.c`
  over the layers below.

  * `channels_found`: over any run of opens and closes every open connection is found under its number,
    as long as no number is opened twice; `lookup_taken` says what happens when one is.
  * `messages_heard`: over any run of frames that nodes have sent, what the callbacks of a node get is
    what `mailbox` says of the messages.
  * `each_message_once`: so every message is heard once and in order, however often its frame is.
-/
import Adler.Net.Chameleon
import Adler.Net.Contikimac

namespace Adler.Net

open Lib Packetbuf

variable {n : ℕ}

/-! ## Channels -/

/-- `ABC_ATTRIBUTES` -/
def abcAttributes : Attrlist := []

/-- `BROADCAST_ATTRIBUTES` -/
def broadcastAttributes (n : ℕ) : Attrlist := (.addr .sender, 8 * n) :: abcAttributes

/-- `UNICAST_ATTRIBUTES` -/
def unicastAttributes (n : ℕ) : Attrlist := (.addr .receiver, 8 * n) :: broadcastAttributes n

/-- The attributes of a kind of connection. -/
def Kind.attributes (n : ℕ) : Kind → Attrlist
  | .abc => abcAttributes
  | .broadcast => broadcastAttributes n
  | .unicast => unicastAttributes n

/-- `channel_open` of the connection `c`. -/
def channelOpen (c : Channel) (channelno : UInt16) (cs : List Channel) : List Channel :=
  cs.filter (·.conn ≠ c.conn) ++ [{ c with channelno := channelno }]

/-- A channel with its attributes. -/
def Channel.withAttributes (c : Channel) (a : Attrlist) : Channel :=
  { c with attrlist := a, hdrsize := UInt8.ofNat (headerSize a) }

/-- `channel_set_attributes`: of the channel that is found under the number. -/
def channelSetAttributes (channelno : UInt16) (a : Attrlist) : List Channel → List Channel
  | [] => []
  | c :: cs =>
    if c.channelno = channelno then c.withAttributes a :: cs
    else c :: channelSetAttributes channelno a cs

/-- `channel_close` -/
def channelClose (conn : ℕ) (cs : List Channel) : List Channel := cs.filter (·.conn ≠ conn)

/-- `abc_open` -/
def abcOpen (c : Channel) (channelno : UInt16) (cs : List Channel) : List Channel :=
  channelSetAttributes channelno abcAttributes (channelOpen c channelno cs)

/-- `broadcast_open` -/
def broadcastOpen (n : ℕ) (c : Channel) (channelno : UInt16) (cs : List Channel) : List Channel :=
  channelSetAttributes channelno (broadcastAttributes n) (abcOpen c channelno cs)

/-- `unicast_open` -/
def unicastOpen (n : ℕ) (c : Channel) (channelno : UInt16) (cs : List Channel) : List Channel :=
  channelSetAttributes channelno (unicastAttributes n) (broadcastOpen n c channelno cs)

/-- The connection is opened as what it is. -/
def Channel.open (n : ℕ) (c : Channel) (channelno : UInt16) (cs : List Channel) : List Channel :=
  match c.kind with
  | .abc => abcOpen c channelno cs
  | .broadcast => broadcastOpen n c channelno cs
  | .unicast => unicastOpen n c channelno cs

/-! ## Sending and receiving -/

/-- `rime_output`: what is given to the MAC layer. -/
def rimeOutput (c : Channel) (b : Packetbuf n) : Option (Packetbuf n) :=
  (packHeader c b).map fun b => (b.setAttr .channel c.channelno).compact

/-- `abc_send` -/
def abcSend (c : Channel) (b : Packetbuf n) : Option (Packetbuf n) := rimeOutput c b

/-- `broadcast_send` -/
def broadcastSend (node : Rimeaddr n) (c : Channel) (b : Packetbuf n) : Option (Packetbuf n) :=
  abcSend c (b.setAddr .sender node)

/-- `unicast_send` -/
def unicastSend (node : Rimeaddr n) (c : Channel) (receiver : Rimeaddr n) (b : Packetbuf n) :
    Option (Packetbuf n) :=
  broadcastSend node c (b.setAddr .receiver receiver)

/-- The callback that is called, with what it is given. -/
inductive Recv (n : ℕ)
  | abc (conn : ℕ)
  | broadcast (conn : ℕ) (sender : Rimeaddr n)
  | unicast (conn : ℕ) (sender : Rimeaddr n)
  deriving DecidableEq

/-- `abc_input`, and the `recv_from_abc` and `recv_from_broadcast` of the connection. -/
def abcInput (node : Rimeaddr n) (c : Channel) (b : Packetbuf n) : Option (Recv n) :=
  match c.kind with
  | .abc => some (.abc c.conn)
  | .broadcast => some (.broadcast c.conn (b.addrs .sender))
  | .unicast =>
    if b.addrs .receiver = node then some (.unicast c.conn (b.addrs .sender)) else none

/-- `input` of `rime.c`, with `chameleon_parse`. -/
def rimeInput (node : Rimeaddr n) (cs : List Channel) (stack : Mem) (b : Packetbuf n) :
    Option (Recv n) × Packetbuf n :=
  match unpackHeader cs stack b with
  | (none, b) => (none, b)
  | (some c, b) =>
    let b := b.setAttr .channel c.channelno
    (abcInput node c b, b)

/-- What `qsend_list` does with a packet that it has taken from the queue; `more`: it is not the last of
the burst. -/
def inBurst (more : Bool) (b : Packetbuf n) : Packetbuf n := if more then b.setAttr .pending 1 else b

/-- What a transmission of the packet puts on the air: `send_packet` of `csma.c` gives it the sequence
number and queues it, `b'` is what the buffer holds when its turn comes. -/
def onAir (node : Rimeaddr n) (seqno : UInt16) (rand : UInt16) (f : Framer) (b' : Packetbuf n)
    (more : Bool) (b : Packetbuf n) : Option (List UInt8) :=
  (prepare node rand f (inBurst more ((b.setAttr .macSeqno seqno).toQueuebuf.toPacketbuf b'))).1

/-- A node hears a frame: the callback that is called, and the variables of the node. -/
def hear (node : Rimeaddr n) (cs : List Channel) (stack : Mem) (s : Mac n) (a : Arrival) :
    Option (Recv n) × Mac n :=
  let (up, s) := s.step node a
  if up then
    let (r, b) := rimeInput node cs stack s.buf
    (r, { s with buf := b })
  else (none, s)

/-! ## Open connections -/

/-- The channel has the number and the attributes of a connection of the kind. -/
structure Channel.Opened (n : ℕ) (c : Channel) (k : Kind) (no : UInt16) : Prop where
  kind : c.kind = k
  channelno : c.channelno = no
  attrlist : c.attrlist = k.attributes n
  hdrsize : c.hdrsize = UInt8.ofNat (headerSize (k.attributes n))

theorem setAttributes_append {channelno : UInt16} {a : Attrlist} {cs : List Channel}
    (h : ∀ c ∈ cs, c.channelno ≠ channelno) (ds : List Channel) :
    channelSetAttributes channelno a (cs ++ ds) = cs ++ channelSetAttributes channelno a ds := by
  induction cs with
  | nil => rfl
  | cons c cs ih =>
    rw [List.cons_append, channelSetAttributes, if_neg (h c (List.mem_cons_self ..)),
      ih fun c' hc' => h c' (List.mem_cons_of_mem _ hc')]
    rfl

/-- Opened under a number that no other connection has, a connection gets its attributes, and the others
keep theirs. -/
theorem open_free {c : Channel} {channelno : UInt16} {cs : List Channel}
    (h : ∀ c' ∈ cs, c'.conn ≠ c.conn → c'.channelno ≠ channelno) :
    c.open n channelno cs = cs.filter (·.conn ≠ c.conn) ++
      [({ c with channelno := channelno } : Channel).withAttributes (c.kind.attributes n)] := by
  have hfree : ∀ c' ∈ cs.filter (·.conn ≠ c.conn), c'.channelno ≠ channelno := fun c' hc' => by
    obtain ⟨hmem, hconn⟩ := List.mem_filter.mp hc'
    exact h c' hmem (of_decide_eq_true hconn)
  have hset : ∀ (a : Attrlist) (d : Channel), d.channelno = channelno →
      channelSetAttributes channelno a (cs.filter (·.conn ≠ c.conn) ++ [d]) =
        cs.filter (·.conn ≠ c.conn) ++ [d.withAttributes a] := fun a d hd => by
    rw [setAttributes_append hfree, channelSetAttributes, if_pos hd]
  unfold Channel.open
  cases hkind : c.kind with
  | abc =>
    dsimp only
    rw [abcOpen, channelOpen, hset _ _ rfl, hkind]
    rfl
  | broadcast =>
    dsimp only
    rw [broadcastOpen, abcOpen, channelOpen, hset _ _ rfl, hset _ _ rfl, hkind]
    rfl
  | unicast =>
    dsimp only
    rw [unicastOpen, broadcastOpen, abcOpen, channelOpen, hset _ _ rfl, hset _ _ rfl, hset _ _ rfl,
      hkind]
    rfl

theorem lookup_setAttributes {channelno : UInt16} (a : Attrlist) {cs : List Channel} {c : Channel}
    (h : channelLookup channelno cs = some c) :
    channelLookup channelno (channelSetAttributes channelno a cs) = some (c.withAttributes a) := by
  induction cs with
  | nil => cases h
  | cons d cs ih =>
    by_cases hd : d.channelno = channelno
    · have hc : d = c := by simpa [channelLookup, hd] using h
      rw [channelSetAttributes, if_pos hd, hc]
      simp [channelLookup, Channel.withAttributes, ← hc, hd]
    · have hcs : channelLookup channelno cs = some c := by simpa [channelLookup, hd] using h
      rw [channelSetAttributes, if_neg hd]
      simpa [channelLookup, hd] using ih hcs

/-- Opened under a number that another connection has, a connection is not found, and the other one's
attributes become those of its kind. -/
theorem lookup_taken {c c' : Channel} {channelno : UInt16} {cs : List Channel}
    (h : channelLookup channelno (cs.filter (·.conn ≠ c.conn)) = some c') :
    channelLookup channelno (c.open n channelno cs) =
      some (c'.withAttributes (c.kind.attributes n)) := by
  have hopen : channelLookup channelno (channelOpen c channelno cs) = some c' := by
    rw [channelLookup] at h
    rw [channelOpen, channelLookup, List.find?_append, h]
    rfl
  have habc : channelLookup channelno (abcOpen c channelno cs) =
      some (c'.withAttributes abcAttributes) := lookup_setAttributes _ hopen
  have hbroadcast : channelLookup channelno (broadcastOpen n c channelno cs) =
      some (c'.withAttributes (broadcastAttributes n)) :=
    (lookup_setAttributes (broadcastAttributes n) habc).trans rfl
  unfold Channel.open
  cases c.kind with
  | abc => exact habc
  | broadcast => exact hbroadcast
  | unicast => exact (lookup_setAttributes (unicastAttributes n) hbroadcast).trans rfl

inductive ChanOp
  | open (c : Channel) (channelno : UInt16)
  | close (conn : ℕ)

def chanStep (n : ℕ) (cs : List Channel) : ChanOp → List Channel
  | .open c channelno => c.open n channelno cs
  | .close conn => channelClose conn cs

/-- No number is opened that another connection has. -/
def ChanOp.Allowed (cs : List Channel) : ChanOp → Prop
  | .open c channelno => ∀ c' ∈ cs, c'.conn ≠ c.conn → c'.channelno ≠ channelno
  | .close _ => True

def chanRun (n : ℕ) (cs : List Channel) (ops : List ChanOp) : List Channel := ops.foldl (chanStep n) cs

def AllAllowed (n : ℕ) : List Channel → List ChanOp → Prop
  | _, [] => True
  | cs, op :: ops => op.Allowed cs ∧ AllAllowed n (chanStep n cs op) ops

/-- Every channel has a number of its own and the attributes of its kind. -/
structure ChannelsOk (n : ℕ) (cs : List Channel) : Prop where
  numbers : (cs.map (·.channelno)).Nodup
  opened : ∀ c ∈ cs, c.Opened n c.kind c.channelno

theorem chanStep_ok {cs : List Channel} (h : ChannelsOk n cs) {op : ChanOp} (hop : op.Allowed cs) :
    ChannelsOk n (chanStep n cs op) := by
  have hfilter : ∀ conn, ChannelsOk n (cs.filter (·.conn ≠ conn)) := fun conn =>
    ⟨h.numbers.sublist (List.filter_sublist.map _), fun c hc => h.opened c (List.mem_of_mem_filter hc)⟩
  cases op with
  | close conn => exact hfilter conn
  | «open» c channelno =>
    obtain ⟨hnumbers, hopened⟩ := hfilter c.conn
    rw [chanStep, open_free hop]
    refine ⟨?_, fun c' hc' => ?_⟩
    · rw [List.map_append, List.map_singleton]
      refine List.nodup_append.mpr ⟨hnumbers, List.nodup_singleton _, fun x hx y hy => ?_⟩
      obtain ⟨c', hc', rfl⟩ := List.mem_map.mp hx
      obtain rfl := List.mem_singleton.mp hy
      obtain ⟨hmem, hconn⟩ := List.mem_filter.mp hc'
      exact hop c' hmem (of_decide_eq_true hconn)
    · rcases List.mem_append.mp hc' with hold | hnew
      · exact hopened c' hold
      · obtain rfl := List.mem_singleton.mp hnew
        exact ⟨rfl, rfl, rfl, rfl⟩

theorem lookup_of_mem {cs : List Channel} (h : (cs.map (·.channelno)).Nodup) {c : Channel} (hc : c ∈ cs) :
    channelLookup c.channelno cs = some c := by
  induction cs with
  | nil => cases hc
  | cons d cs ih =>
    rw [List.map_cons, List.nodup_cons] at h
    rcases List.mem_cons.mp hc with rfl | hc
    · simp [channelLookup]
    · have hne : d.channelno ≠ c.channelno := fun he => h.1 (he ▸ List.mem_map_of_mem hc)
      simpa [channelLookup, hne] using ih h.2 hc

/-- What the connections are opened for: which, as what, under which number. -/
def ChanOp.spec (os : List (ℕ × Kind × UInt16)) : ChanOp → List (ℕ × Kind × UInt16)
  | .open c channelno => os.filter (·.1 ≠ c.conn) ++ [(c.conn, c.kind, channelno)]
  | .close conn => os.filter (·.1 ≠ conn)

def Channel.spec (c : Channel) : ℕ × Kind × UInt16 := (c.conn, c.kind, c.channelno)

theorem chanRun_ok {cs : List Channel} (h : ChannelsOk n cs) {ops : List ChanOp}
    (hops : AllAllowed n cs ops) : ChannelsOk n (chanRun n cs ops) := by
  induction ops generalizing cs with
  | nil => exact h
  | cons op ops ih => exact ih (chanStep_ok h hops.1) hops.2

theorem chanStep_spec {cs : List Channel} {op : ChanOp} (hop : op.Allowed cs) :
    (chanStep n cs op).map Channel.spec = op.spec (cs.map Channel.spec) := by
  have hfilter : ∀ conn, (cs.filter (·.conn ≠ conn)).map Channel.spec =
      (cs.map Channel.spec).filter (·.1 ≠ conn) := fun conn => by
    rw [List.filter_map]
    rfl
  cases op with
  | close conn => exact hfilter conn
  | «open» c channelno =>
    rw [chanStep, open_free hop, List.map_append, hfilter]
    rfl

/-- Over any run in which no number is opened that another connection has, the open connections are
those that were opened and not closed since, and each is found under its number, with the attributes
of its kind. -/
theorem channels_found (n : ℕ) {ops : List ChanOp} (hops : AllAllowed n [] ops) :
    (chanRun n [] ops).map Channel.spec = ops.foldl ChanOp.spec [] ∧
      ∀ c ∈ chanRun n [] ops, channelLookup c.channelno (chanRun n [] ops) = some c ∧
        c.Opened n c.kind c.channelno := by
  have hnil : ChannelsOk n [] := ⟨List.nodup_nil, fun _ hc => absurd hc List.not_mem_nil⟩
  have hok := chanRun_ok hnil hops
  refine ⟨?_, fun c hc => ⟨lookup_of_mem hok.numbers hc, hok.opened c hc⟩⟩
  suffices hspec : ∀ cs, AllAllowed n cs ops →
      (chanRun n cs ops).map Channel.spec = ops.foldl ChanOp.spec (cs.map Channel.spec) from hspec [] hops
  clear hok hops
  induction ops with
  | nil => exact fun _ _ => rfl
  | cons op ops ih =>
    intro cs hops
    rw [List.foldl_cons, ← chanStep_spec hops.1]
    exact ih _ hops.2

/-- A channel with the attributes of its kind. -/
def openedChannel (k : Kind) (no : UInt16) : Channel where
  conn := 4
  channelno := no
  attrlist := k.attributes 2
  hdrsize := UInt8.ofNat (headerSize (k.attributes 2))
  kind := k

theorem openedChannel_opened (k : Kind) (no : UInt16) : (openedChannel k no).Opened 2 k no :=
  ⟨rfl, rfl, rfl, rfl⟩

theorem channels_found_reopened :
    (chanRun 2 [] [.open (openedChannel .abc 0) 128, .open (openedChannel .unicast 0) 129]).map
        Channel.spec = [(4, .unicast, 129)] := by
  have hops : AllAllowed 2 []
      [.open (openedChannel .abc 0) 128, .open (openedChannel .unicast 0) 129] :=
    ⟨fun _ h => absurd h List.not_mem_nil,
      fun c' hc' hne => absurd (congrArg Channel.conn (List.mem_singleton.mp hc')) hne, trivial⟩
  exact (channels_found 2 hops).1.trans (by decide)

/-! ## One message -/

theorem Channel.Opened.sized (hn : n = 2 ∨ n = 8) {c : Channel} {k : Kind} {no : UInt16}
    (h : c.Opened n k no) : c.Sized := by
  rw [Channel.Sized, h.hdrsize, h.attrlist]
  rcases hn with rfl | rfl <;> cases k <;> rfl

/-- A message of a node. -/
structure Message (n : ℕ) where
  sender : Rimeaddr n
  kind : Kind
  receiver : Rimeaddr n
  channelno : UInt16
  payload : List UInt8
  seqno : UInt16

/-- The packet before the headers. -/
def Message.packet (m : Message n) (b : Packetbuf n) : Packetbuf n :=
  let b := b.copyfrom m.payload
  match m.kind with
  | .abc => b
  | .broadcast => b.setAddr .sender m.sender
  | .unicast => (b.setAddr .receiver m.receiver).setAddr .sender m.sender

/-- The bytes the message is sent as, from whatever is in the buffer before and when its turn comes. -/
def Message.send (m : Message n) (c : Channel) (b b' : Packetbuf n) (rand : UInt16) (f : Framer)
    (more : Bool) : Option (List UInt8) :=
  let b := b.copyfrom m.payload
  (match m.kind with
    | .abc => abcSend c b
    | .broadcast => broadcastSend m.sender c b
    | .unicast => unicastSend m.sender c m.receiver b).bind (onAir m.sender m.seqno rand f b' more)

/-- To whom the MAC layer sends the message. -/
def Message.to (m : Message n) : Rimeaddr n :=
  match m.kind with
  | .unicast => m.receiver
  | _ => rimeaddrNull

/-- The bytes of a message with all its headers. -/
def Message.frameLen (m : Message n) : ℕ :=
  2 + (m.kind.attributes n).length * n + 2 + (5 + n + if m.to = rimeaddrNull then 2 else n) +
    m.payload.length

def Message.key (m : Message n) : Seqno n := ⟨m.sender, m.seqno.toUInt8⟩

/-- The MAC layer of the node takes the message. -/
def Message.Reaches (m : Message n) (node : Rimeaddr n) : Prop :=
  m.to = node ∨ m.to = rimeaddrNull ∨ m.to = rimeaddrAllOnes

instance (m : Message n) (node : Rimeaddr n) : Decidable (m.Reaches node) :=
  inferInstanceAs (Decidable (_ ∨ _ ∨ _))

/-- The callback for the message. -/
def Message.callback (m : Message n) (node : Rimeaddr n) (cs : List Channel) : Option (Recv n) :=
  match channelLookup m.channelno cs with
  | none => none
  | some c =>
    match m.kind with
    | .abc => some (.abc c.conn)
    | .broadcast => some (.broadcast c.conn m.sender)
    | .unicast => if m.receiver = node then some (.unicast c.conn m.sender) else none

theorem send_eq (m : Message n) (c : Channel) (b b' : Packetbuf n) (rand : UInt16) (f : Framer)
    (more : Bool) : m.send c b b' rand f more =
      (rimeOutput c (m.packet b)).bind (onAir m.sender m.seqno rand f b' more) := by
  unfold Message.send Message.packet
  cases m.kind <;> rfl

theorem packet_spec (m : Message n) (b : Packetbuf n) :
    (m.packet b).Ok ∧ (m.packet b).header = [] ∧ (m.packet b).data = m.payload.take packetbufSize ∧
      (m.packet b).addrs .receiver = m.to ∧ (m.kind ≠ .abc → (m.packet b).addrs .sender = m.sender) := by
  have hok := b.copyfrom_ok m.payload
  have hdata := b.copyfrom_data m.payload
  unfold Message.packet Message.to
  cases m.kind with
  | abc => exact ⟨hok, rfl, hdata, rfl, fun h => absurd rfl h⟩
  | broadcast => exact ⟨⟨hok.hdr, hok.data, hok.tot⟩, rfl, hdata, rfl, fun _ => rfl⟩
  | unicast => exact ⟨⟨hok.hdr, hok.data, hok.tot⟩, rfl, hdata, rfl, fun _ => rfl⟩

theorem packable_attributes (b : Packetbuf n) (k : Kind) : ∀ e ∈ k.attributes n, Packable b e := by
  cases k <;> simp [Kind.attributes, unicastAttributes, broadcastAttributes, abcAttributes, Packable]

/-- Attributes are whole bytes. -/
theorem hdrbytesize_eq (hn : n = 2 ∨ n = 8) {c : Channel} {k : Kind} {no : UInt16}
    (h : c.Opened n k no) : c.hdrbytesize = (k.attributes n).length * n := by
  unfold Channel.hdrbytesize
  rw [h.hdrsize]
  rcases hn with rfl | rfl <;> cases k <;> rfl

theorem attributes_le (hn : n = 2 ∨ n = 8) (k : Kind) : (k.attributes n).length * n ≤ 16 := by
  have hlen : (k.attributes n).length ≤ 2 := by
    cases k <;> simp [Kind.attributes, unicastAttributes, broadcastAttributes, abcAttributes]
  calc (k.attributes n).length * n ≤ 2 * n := Nat.mul_le_mul_right n hlen
    _ ≤ 16 := by omega

theorem inBurst_spec (more : Bool) {b : Packetbuf n} (h : b.Ok) :
    (inBurst more b).Ok ∧ (inBurst more b).header = b.header ∧ (inBurst more b).data = b.data ∧
      (inBurst more b).attrs .macSeqno = b.attrs .macSeqno ∧ (inBurst more b).addrs = b.addrs := by
  cases more with
  | false => exact ⟨h, rfl, rfl, rfl, rfl⟩
  | true => exact ⟨⟨h.hdr, h.data, h.tot⟩, rfl, rfl, rfl, rfl⟩

/-- The message under its Rime header, as the MAC layer takes it from its queue. -/
theorem queued (hn : n = 2 ∨ n = 8) (m : Message n) {c : Channel}
    (hc : c.Opened n m.kind m.channelno) (b b' : Packetbuf n) (more : Bool) :
    rimeOutput c (m.packet b) = none ∧ 128 < m.frameLen ∨
      ∃ p q hdr, rimeOutput c (m.packet b) = some p ∧
        inBurst more ((p.setAttr .macSeqno m.seqno).toQueuebuf.toPacketbuf b') = q ∧
        Encodes c (m.packet b) hdr ∧ q.Ok ∧ q.header = [] ∧ q.data = pidBytes m.channelno ++ hdr ++ m.payload ∧
        q.attrs .macSeqno = m.seqno ∧ q.addrs .receiver = m.to := by
  obtain ⟨hok, hheader, hdata, hto, -⟩ := packet_spec m b
  have hbytes := hdrbytesize_eq hn hc
  have hle := attributes_le hn m.kind
  have htake : (m.payload.take packetbufSize).length = min 128 m.payload.length := List.length_take ..
  by_cases hr : (m.packet b).Room (c.hdrbytesize + 2)
  · have hpay : m.payload.take packetbufSize = m.payload := by
      obtain ⟨-, h2⟩ := hr
      rw [hheader, hdata, htake, List.length_nil] at h2
      have h2 : 0 + min 128 m.payload.length + (c.hdrbytesize + 2) ≤ 128 := h2
      exact List.take_of_length_le (show _ ≤ 128 by omega)
    obtain ⟨b1, hdr, hpack, henc, hok1, hheader1, hdata1, hattrs1, haddrs1⟩ := pack_spec
      (by omega) (hc.sized hn) hok (hc.attrlist ▸ packable_attributes _ m.kind) hr
    have hok2 : (b1.setAttr .channel c.channelno).Ok := ⟨hok1.hdr, hok1.data, hok1.tot⟩
    have hok3 := compact_ok hok2
    obtain ⟨p, hp⟩ : ∃ p, (b1.setAttr .channel c.channelno).compact = p := ⟨_, rfl⟩
    have hheaderp : p.header = b1.header := hp ▸ compact_header hok2
    have hdatap : p.data = b1.data := hp ▸ compact_data _
    have haddrsp : p.addrs = b1.addrs := hp ▸ compact_addrs _
    rw [hp] at hok3
    have hok4 : (p.setAttr .macSeqno m.seqno).Ok := ⟨hok3.hdr, hok3.data, hok3.tot⟩
    obtain ⟨hok5, hheader5, hdata5⟩ := requeue hok4 b'
    obtain ⟨hok6, hheader6, hdata6, hseqno6, haddrs6⟩ := inBurst_spec more hok5
    refine .inr ⟨p, _, hdr, ?_, rfl, henc, hok6, hheader6.trans hheader5, ?_, hseqno6.trans ?_, ?_⟩
    · rw [rimeOutput, hpack, Option.map_some, hp]
    · rw [hdata6, hdata5, show (p.setAttr .macSeqno m.seqno).header = p.header from rfl,
        show (p.setAttr .macSeqno m.seqno).data = p.data from rfl, hheaderp, hdatap, hheader1, hdata1,
        hheader, hdata, hpay, List.append_nil, hc.channelno]
    · exact show Function.update p.attrs .macSeqno m.seqno .macSeqno = _ from Function.update_self ..
    · rw [haddrs6]
      exact (congrFun (haddrsp.trans haddrs1) .receiver).trans hto
  · refine .inl ⟨by rw [rimeOutput, pack_none c hok hr]; rfl, ?_⟩
    unfold Packetbuf.Room at hr
    rw [hheader, hdata, htake, List.length_nil] at hr
    have hr : ¬ (0 + (c.hdrbytesize + 2) ≤ 48 ∧
      0 + min 128 m.payload.length + (c.hdrbytesize + 2) ≤ 128) := hr
    unfold Message.frameLen
    split <;> omega

/-- The header of the MAC layer in front of it: it has room when the frame has. -/
theorem framed (hn : n = 2 ∨ n = 8) (m : Message n) (rand : UInt16) (f : Framer) {q : Packetbuf n}
    (hheader : q.header = [])
    (hlen : q.data.length = 2 + (m.kind.attributes n).length * n + m.payload.length)
    (hto : q.addrs .receiver = m.to) :
    q.totlen ≠ 0 ∧
      (Net.hdrlen (f.frame m.sender rand (addressed m.sender q))).1 + 2 + q.data.length = m.frameLen ∧
      (q.Room (2 + (Net.hdrlen (f.frame m.sender rand (addressed m.sender q))).1) ↔
        m.frameLen ≤ 128) := by
  have hframed : (Net.hdrlen (f.frame m.sender rand (addressed m.sender q))).1 =
      5 + n + if m.to = rimeaddrNull then 2 else n := by
    rw [← hto]
    exact hdrlen_params hn m.sender (addressed m.sender q) _
  have hsum : (Net.hdrlen (f.frame m.sender rand (addressed m.sender q))).1 + 2 + q.data.length =
      m.frameLen := by
    rw [hframed, hlen, Message.frameLen]
    omega
  have htot : q.totlen ≠ 0 := by
    rw [length_data] at hlen
    unfold totlen
    omega
  refine ⟨htot, hsum, ?_⟩
  unfold Packetbuf.Room
  rw [hheader, List.length_nil]
  constructor
  · rintro ⟨-, h2⟩
    have h2 : _ ≤ 128 := h2
    omega
  · refine fun hle => ⟨?_, show _ ≤ 128 by omega⟩
    rw [hframed]
    show _ ≤ 48
    split <;> omega

theorem length_queued (hn : n = 2 ∨ n = 8) {m : Message n} {c : Channel}
    (hc : c.Opened n m.kind m.channelno) {b q : Packetbuf n} {hdr : List UInt8} (henc : Encodes c b hdr)
    (hdata : q.data = pidBytes m.channelno ++ hdr ++ m.payload) :
    q.data.length = 2 + (m.kind.attributes n).length * n + m.payload.length := by
  rw [hdata, List.length_append, List.length_append, henc.length, hdrbytesize_eq hn hc]
  rfl

/-- A message is sent when all its headers fit the packet buffer. -/
theorem sent_iff (hn : n = 2 ∨ n = 8) (m : Message n) {c : Channel}
    (hc : c.Opened n m.kind m.channelno) (b b' : Packetbuf n) (rand : UInt16) (f : Framer)
    (more : Bool) : (m.send c b b' rand f more).isSome ↔ m.frameLen ≤ 128 := by
  rw [send_eq]
  rcases queued hn m hc b b' more with
    ⟨hnone, hlt⟩ | ⟨p, q, hdr, hsome, hq, henc, hok, hheader, hdata, -, hto⟩
  · rw [hnone]
    exact iff_of_false Bool.false_ne_true (Nat.not_le.mpr hlt)
  · obtain ⟨htot, -, hroom⟩ := framed hn m rand f hheader (length_queued hn hc henc hdata) hto
    rw [hsome, Option.bind_some, onAir, hq, ← hroom]
    by_cases hr : q.Room (2 + (Net.hdrlen (f.frame m.sender rand (addressed m.sender q))).1)
    · obtain ⟨b1, hprepare, -⟩ := prepare_spec m.sender rand f hok htot hr
      rw [hprepare]
      exact iff_of_true rfl hr
    · rw [prepare_none m.sender rand f hok hr]
      exact iff_of_false Bool.false_ne_true hr

/-- What the callback is given, once the attributes are back. -/
theorem abcInput_packet (m : Message n) (b : Packetbuf n) (node : Rimeaddr n) {c : Channel}
    (hc : c.Opened n m.kind m.channelno) {cs : List Channel}
    (hl : channelLookup m.channelno cs = some c) (r : Packetbuf n) :
    abcInput node c (((m.kind.attributes n).foldl (copyAttr (m.packet b)) r).setAttr .channel
      c.channelno) = m.callback node cs := by
  obtain ⟨-, -, -, hto, hsender⟩ := packet_spec m b
  unfold abcInput Message.callback
  rw [hc.kind, hl]
  cases hkind : m.kind with
  | abc => rfl
  | broadcast =>
    have hne : m.kind ≠ .abc := hkind ▸ Kind.noConfusion
    show some (Recv.broadcast c.conn ((m.packet b).addrs .sender)) = _
    rw [hsender hne]
  | unicast =>
    have hne : m.kind ≠ .abc := hkind ▸ Kind.noConfusion
    show (if (m.packet b).addrs .receiver = node then
      some (Recv.unicast c.conn ((m.packet b).addrs .sender)) else none) = _
    rw [hsender hne, hto, Message.to, hkind]

/-- What a node does with the packet in the frame of a message. -/
theorem rimeInput_packet (hn : n = 2 ∨ n = 8) (m : Message n) {c : Channel}
    (hc : c.Opened n m.kind m.channelno) {b : Packetbuf n} {hdr : List UInt8}
    (henc : Encodes c (m.packet b) hdr) (node : Rimeaddr n) {cs : List Channel}
    (hcs : ∀ c', channelLookup m.channelno cs = some c' → c'.Opened n m.kind m.channelno) (stack : Mem)
    {r : Packetbuf n} (hr : r.Ok) (hd : r.data = pidBytes m.channelno ++ hdr ++ m.payload) :
    (rimeInput node cs stack r).1 = m.callback node cs ∧
      ((m.callback node cs).isSome → (rimeInput node cs stack r).2.data = m.payload) := by
  unfold rimeInput
  cases hl : channelLookup m.channelno cs with
  | none =>
    have hnone := unpack_none hl stack (hd.trans (List.append_assoc ..))
    have hcall : m.callback node cs = none := by rw [Message.callback, hl]
    obtain ⟨x, hx⟩ : ∃ x, unpackHeader cs stack r = x := ⟨_, rfl⟩
    obtain ⟨c', u⟩ := x
    rw [hx] at hnone
    obtain rfl : c' = none := hnone
    rw [hx, hcall]
    exact ⟨rfl, fun h => absurd h Bool.false_ne_true⟩
  | some c' =>
    have hc' := hcs c' hl
    obtain ⟨u, -, hdata, -, -, hunpack⟩ := unpack_spec (by omega) henc
      (hc.attrlist ▸ packable_attributes _ m.kind) (hc.channelno ▸ hl)
      (hc'.attrlist.trans hc.attrlist.symm) (hc'.hdrsize.trans hc.hdrsize.symm) stack hr
      (hc.channelno ▸ hd)
    rw [hunpack, hc.attrlist]
    refine ⟨abcInput_packet m b node hc' hl u, fun _ => ?_⟩
    obtain ⟨hmem, hhdrptr, hbufptr, hbuflen⟩ :=
      foldl_copyAttr_frame (m.packet b) (m.kind.attributes n) u
    rw [← hdata]
    show Mem.read _ _ _ = Mem.read _ _ _
    dsimp only [setAttr]
    rw [hmem, hbufptr, hbuflen]

/-- A node hears the frame of a message. -/
theorem heard_message (hn : n = 2 ∨ n = 8) (m : Message n) {c : Channel}
    (hc : c.Opened n m.kind m.channelno) (hs : m.seqno ≠ 0) {b b' : Packetbuf n} {rand : UInt16}
    {f : Framer} {more : Bool} {bytes : List UInt8}
    (hsend : m.send c b b' rand f more = some bytes) (node : Rimeaddr n) {cs : List Channel}
    (hcs : ∀ c', channelLookup m.channelno cs = some c' → c'.Opened n m.kind m.channelno) (stack : Mem)
    (s : Mac n) (pf : Frame) :
    ∃ buf, hear node cs stack s (bytes, pf) =
        (if m.frameLen ≤ maxFrame ∧ m.Reaches node ∧ m.key ∉ s.seen then
          (m.callback node cs, ⟨m.key :: s.seen.dropLast, buf⟩) else (none, ⟨s.seen, buf⟩)) ∧
      (m.frameLen ≤ maxFrame ∧ m.Reaches node ∧ m.key ∉ s.seen → (m.callback node cs).isSome →
        buf.data = m.payload) := by
  rw [send_eq] at hsend
  rcases queued hn m hc b b' more with ⟨hnone, -⟩ |
    ⟨p, q, hdr, hsome, hq, henc, hok, hheader, hdata, hseqno, hto⟩
  · rw [hnone] at hsend
    cases hsend
  rw [hsome, Option.bind_some, onAir, hq] at hsend
  obtain ⟨htot, hsum, hroom⟩ := framed hn m rand f hheader (length_queued hn hc henc hdata) hto
  have hr : q.Room (2 + (Net.hdrlen (f.frame m.sender rand (addressed m.sender q))).1) := by
    by_contra hno
    rw [prepare_none m.sender rand f hok hno] at hsend
    cases hsend
  have hlen : bytes.length = m.frameLen := by
    obtain ⟨b1, hprepare, -⟩ := prepare_spec m.sender rand f hok htot hr
    rw [hprepare] at hsend
    obtain rfl := Option.some.inj hsend
    rw [hheader, ← hsum, List.length_append, List.length_append, List.length_append, length_header]
    rfl
  by_cases hfit : m.frameLen ≤ maxFrame
  · obtain ⟨r', hok', -, hdata', -, -, -, hinput⟩ := input_prepare hn m.sender rand f hok htot hr hsend
      (hlen ▸ hfit) node pf s.seen s.buf
    have hseq : (f.seqno rand (addressed m.sender q)).1 = m.seqno.toUInt8 := by
      have hattr : (addressed m.sender q).attrs .macSeqno = m.seqno := hseqno
      unfold Framer.seqno
      rw [hattr]
      simp only [ne_eq, hs, not_false_eq_true, if_true]
    rw [hheader, List.nil_append, hdata] at hdata'
    rw [hseq, hto] at hinput
    have hinput : input node pf s.seen (receive s.buf bytes) =
        if m.Reaches node ∧ m.key ∉ s.seen then (true, m.key :: s.seen.dropLast, r')
        else (false, s.seen, r') := hinput
    obtain ⟨hcall, hpay⟩ := rimeInput_packet hn m hc henc node hcs stack hok' hdata'
    by_cases hup : m.Reaches node ∧ m.key ∉ s.seen
    · rw [if_pos hup] at hinput
      refine ⟨(rimeInput node cs stack r').2, ?_, fun _ => hpay⟩
      rw [if_pos ⟨hfit, hup⟩, hear, Mac.step]
      dsimp only
      rw [hinput, ← hcall]
      rfl
    · rw [if_neg hup] at hinput
      refine ⟨r', ?_, fun h => absurd h.2 hup⟩
      rw [if_neg fun h => hup h.2, hear, Mac.step]
      dsimp only
      rw [hinput]
      rfl
  · refine ⟨receive s.buf bytes, ?_, fun h => absurd h.1 hfit⟩
    rw [if_neg fun h => hfit h.1, hear, Mac.step]
    dsimp only
    rw [input_long _ _ _ _ (hlen ▸ Nat.not_le.mp hfit)]
    rfl

/-! ## Runs -/

/-- The bytes are those the message is sent as. -/
def Message.Sends (m : Message n) (bytes : List UInt8) : Prop :=
  m.seqno ≠ 0 ∧ ∃ c b b' rand f more, c.Opened n m.kind m.channelno ∧
    m.send c b b' rand f more = some bytes

/-- The node has the channel of the message as the same kind, or not at all. -/
def Message.Agrees (m : Message n) (cs : List Channel) : Prop :=
  ∀ c, channelLookup m.channelno cs = some c → c.Opened n m.kind m.channelno

/-- A run of the node: the callbacks that are called, and the data they find in the buffer. The second
component of an arrival is what the stack held. -/
def hearAll (node : Rimeaddr n) (cs : List Channel) : Mac n → List (Arrival × Mem) →
    List (Recv n × List UInt8)
  | _, [] => []
  | s, (a, stack) :: as =>
    let (r, s) := hear node cs stack s a
    (r.map (·, s.buf.data)).toList ++ hearAll node cs s as

/-- What a node should get of the messages. -/
def mailbox (node : Rimeaddr n) (cs : List Channel) : List (Seqno n) → List (Message n) →
    List (Recv n × List UInt8)
  | _, [] => []
  | seen, m :: ms =>
    if m.frameLen ≤ maxFrame ∧ m.Reaches node ∧ m.key ∉ seen then
      ((m.callback node cs).map (·, m.payload)).toList ++
        mailbox node cs (Recent.remember seen m.key) ms
    else mailbox node cs seen ms

/-- The callbacks of a run are those of the messages. -/
theorem hearAll_eq (hn : n = 2 ∨ n = 8) (node : Rimeaddr n) (cs : List Channel) (s : Mac n)
    {as : List (Message n × Arrival × Mem)} (hsent : ∀ a ∈ as, a.1.Sends a.2.1.1)
    (hcs : ∀ a ∈ as, a.1.Agrees cs) :
    hearAll node cs s (as.map (·.2)) = mailbox node cs s.seen (as.map (·.1)) := by
  induction as generalizing s with
  | nil => rfl
  | cons a as ih =>
    obtain ⟨m, ⟨bytes, pf⟩, stack⟩ := a
    obtain ⟨hs, c, b, b', rand, f, more, hc, hsend⟩ := hsent _ (List.mem_cons_self ..)
    obtain ⟨buf, hhear, hdata⟩ := heard_message hn m hc hs hsend node
      (hcs _ (List.mem_cons_self ..)) stack s pf
    have ih := fun s' => ih s' (fun a ha => hsent a (List.mem_cons_of_mem _ ha))
      (fun a ha => hcs a (List.mem_cons_of_mem _ ha))
    rw [List.map_cons, List.map_cons, hearAll, mailbox, hhear]
    by_cases hup : m.frameLen ≤ maxFrame ∧ m.Reaches node ∧ m.key ∉ s.seen
    · rw [if_pos hup, if_pos hup]
      dsimp only
      rw [ih]
      congr 1
      cases hcall : m.callback node cs with
      | none => rfl
      | some r => rw [Option.map_some, Option.map_some, hdata hup (by rw [hcall]; rfl)]
    · rw [if_neg hup, if_neg hup]
      exact ih _

/-- Only messages end up in the mailbox. -/
theorem mem_mailbox {node : Rimeaddr n} {cs : List Channel} {seen : List (Seqno n)}
    {ms : List (Message n)} {x : Recv n × List UInt8} (hx : x ∈ mailbox node cs seen ms) :
    ∃ m ∈ ms, m.frameLen ≤ maxFrame ∧ m.callback node cs = some x.1 ∧ x.2 = m.payload := by
  induction ms generalizing seen with
  | nil => exact absurd hx List.not_mem_nil
  | cons m ms ih =>
    rw [mailbox] at hx
    split at hx
    · rename_i hup
      rcases List.mem_append.mp hx with hx | hx
      · obtain ⟨r, hr, rfl⟩ := Option.map_eq_some_iff.mp (Option.mem_toList.mp hx)
        exact ⟨m, List.mem_cons_self .., hup.1, hr, rfl⟩
      · obtain ⟨m', hm', h⟩ := ih hx
        exact ⟨m', List.mem_cons_of_mem _ hm', h⟩
    · obtain ⟨m', hm', h⟩ := ih hx
      exact ⟨m', List.mem_cons_of_mem _ hm', h⟩

/-- A message to node 5.5. -/
def hello : Message 2 where
  sender := fun _ => 3
  kind := .unicast
  receiver := fun _ => 5
  channelno := 129
  payload := [104, 105]
  seqno := 1

/-- The next message of that node to it. -/
def bye : Message 2 := { hello with payload := [98, 121, 101], seqno := 2 }

theorem exists_sends {m : Message 2} (hs : m.seqno ≠ 0) (hlen : m.frameLen ≤ 128) (more : Bool) :
    ∃ bytes, m.Sends bytes := by
  have hc := openedChannel_opened m.kind m.channelno
  obtain ⟨b, hb⟩ : ∃ b : Packetbuf 2, b = ⟨fun _ => 0, 48, 0, 0, fun _ => 0, fun _ => rimeaddrNull⟩ :=
    ⟨_, rfl⟩
  obtain ⟨bytes, hbytes⟩ := Option.isSome_iff_exists.mp
    ((sent_iff (.inl rfl) m hc b b 0 ⟨0, false⟩ more).mpr hlen)
  exact ⟨bytes, hs, _, b, b, 0, ⟨0, false⟩, more, hc, hbytes⟩

theorem hello_agrees : hello.Agrees [openedChannel .unicast 129] := by
  intro c hc
  have : c = openedChannel .unicast 129 := by
    have := List.mem_of_find?_eq_some hc
    exact List.mem_singleton.mp this
  rw [this]
  exact openedChannel_opened .unicast 129

/-- Over any run the callbacks of a node are those of the messages it hears, in the order it hears them,
and none is called but for a message that was sent to it, with the payload and the sender it was sent
with, whatever the buffers of the senders and of the node held. -/
theorem messages_heard (hn : n = 2 ∨ n = 8) (node : Rimeaddr n) (cs : List Channel) (s : Mac n)
    (as : List (Message n × Arrival × Mem)) (hsent : ∀ a ∈ as, a.1.Sends a.2.1.1)
    (hcs : ∀ a ∈ as, a.1.Agrees cs) :
    hearAll node cs s (as.map (·.2)) = mailbox node cs s.seen (as.map (·.1)) ∧
      ∀ x ∈ hearAll node cs s (as.map (·.2)), ∃ a ∈ as, a.1.callback node cs = some x.1 ∧
        x.2 = a.1.payload := by
  have heq := hearAll_eq hn node cs s hsent hcs
  refine ⟨heq, fun x hx => ?_⟩
  obtain ⟨m, hm, -, hcall, hpay⟩ := mem_mailbox (heq ▸ hx)
  obtain ⟨a, ha, rfl⟩ := List.mem_map.mp hm
  exact ⟨a, ha, hcall, hpay⟩

/-- A message that is repeated, with the next one behind it in the burst. -/
theorem messages_heard_hello : ∃ bytes bytes', hello.Sends bytes ∧ bye.Sends bytes' ∧
    ∀ b : Packetbuf 2, hearAll hello.receiver [openedChannel .unicast 129] ⟨noSeqnos, b⟩
      [((bytes, dataFrame), fun _ => 1), ((bytes, dataFrame), fun _ => 2),
        ((bytes', dataFrame), fun _ => 3)] =
        [(.unicast 4 hello.sender, [104, 105]), (.unicast 4 hello.sender, [98, 121, 101])] := by
  obtain ⟨bytes, hbytes⟩ := exists_sends (m := hello) (by decide) (by decide) true
  obtain ⟨bytes', hbytes'⟩ := exists_sends (m := bye) (by decide) (by decide) false
  refine ⟨bytes, bytes', hbytes, hbytes', fun b => ?_⟩
  have hheard := (messages_heard (.inl rfl) hello.receiver [openedChannel .unicast 129] ⟨noSeqnos, b⟩
    [(hello, (bytes, dataFrame), fun _ => 1), (hello, (bytes, dataFrame), fun _ => 2),
      (bye, (bytes', dataFrame), fun _ => 3)]
    (List.forall_mem_cons.mpr ⟨hbytes, List.forall_mem_cons.mpr
      ⟨hbytes, List.forall_mem_singleton.mpr hbytes'⟩⟩)
    (List.forall_mem_cons.mpr ⟨hello_agrees, List.forall_mem_cons.mpr
      ⟨hello_agrees, List.forall_mem_singleton.mpr hello_agrees⟩⟩)).1
  exact hheard.trans rfl

/-- A message that does not reach the node is none of its callbacks' business. -/
theorem callback_of_not_reaches {m : Message n} {node : Rimeaddr n} (h : ¬ m.Reaches node)
    (cs : List Channel) : m.callback node cs = none := by
  unfold Message.callback
  cases channelLookup m.channelno cs with
  | none => rfl
  | some c =>
    cases hkind : m.kind with
    | abc => exact absurd (.inr (.inl (by rw [Message.to, hkind]))) h
    | broadcast => exact absurd (.inr (.inl (by rw [Message.to, hkind]))) h
    | unicast =>
      have hto : m.to = m.receiver := by rw [Message.to, hkind]
      exact if_neg fun he => h (.inl (hto.trans he))

/-- Repetitions of a message that was just heard are dropped. -/
theorem mailbox_repeated (node : Rimeaddr n) (cs : List Channel) (seen : List (Seqno n)) {m : Message n}
    (h : m.key ∈ seen) (k : ℕ) (ms : List (Message n)) :
    mailbox node cs seen (List.replicate k m ++ ms) = mailbox node cs seen ms := by
  induction k with
  | zero => rfl
  | succ k ih =>
    rw [List.replicate_succ, List.cons_append, mailbox, if_neg fun hup => hup.2.2 h, ih]

/-- The message that a node gets, when it gets one. -/
def Message.received (node : Rimeaddr n) (cs : List Channel) (m : Message n) :
    Option (Recv n × List UInt8) :=
  if m.frameLen ≤ maxFrame then (m.callback node cs).map (·, m.payload) else none

theorem mailbox_dropped (node : Rimeaddr n) (cs : List Channel) {m : Message n}
    (h : ¬ (m.frameLen ≤ maxFrame ∧ m.Reaches node)) (seen : List (Seqno n)) (k : ℕ)
    (ms : List (Message n)) :
    m.received node cs = none ∧
      mailbox node cs seen (List.replicate k m ++ ms) = mailbox node cs seen ms := by
  constructor
  · unfold Message.received
    split
    · rename_i hfit
      rw [callback_of_not_reaches fun hr => h ⟨hfit, hr⟩]
      rfl
    · rfl
  · induction k with
    | zero => rfl
    | succ k ih =>
      rw [List.replicate_succ, List.cons_append, mailbox, if_neg fun hup => h ⟨hup.1, hup.2.1⟩, ih]

theorem mailbox_once (node : Rimeaddr n) (cs : List Channel) (ms : List (Message n × ℕ))
    (hkeys : (ms.map (·.1.key)).Nodup) {seen : List (Seqno n)}
    (hseen : ∀ m ∈ ms, m.1.key ∉ seen) :
    mailbox node cs seen (ms.flatMap fun m => List.replicate (m.2 + 1) m.1) =
      ms.filterMap fun m => m.1.received node cs := by
  induction ms generalizing seen with
  | nil => rfl
  | cons m ms ih =>
    obtain ⟨m, k⟩ := m
    rw [List.map_cons, List.nodup_cons] at hkeys
    rw [List.flatMap_cons, List.filterMap_cons]
    by_cases hup : m.frameLen ≤ maxFrame ∧ m.Reaches node
    · have hnew : m.key ∉ seen := hseen _ (List.mem_cons_self ..)
      have hrest : ∀ m' ∈ ms, m'.1.key ∉ Recent.remember seen m.key := fun m' hm' hmem => by
        rcases List.mem_cons.mp hmem with he | hold
        · exact hkeys.1 (he ▸ List.mem_map_of_mem (f := (·.1.key)) hm')
        · exact hseen m' (List.mem_cons_of_mem _ hm') (List.mem_of_mem_dropLast hold)
      rw [List.replicate_succ, List.cons_append, mailbox, if_pos ⟨hup.1, hup.2, hnew⟩,
        mailbox_repeated node cs (Recent.remember seen m.key) (List.mem_cons_self ..),
        ih hkeys.2 hrest]
      dsimp only
      rw [Message.received, if_pos hup.1]
      cases m.callback node cs <;> rfl
    · obtain ⟨hnone, hdrop⟩ := mailbox_dropped node cs hup seen (k + 1)
        (ms.flatMap fun m => List.replicate (m.2 + 1) m.1)
      dsimp only
      rw [hdrop, hnone, ih hkeys.2 fun m' hm' => hseen m' (List.mem_cons_of_mem _ hm')]

/-- Messages of different keys that a node hears one after the other, each once or more, as long as
their senders strobe: it gets every one that is for it and fits a frame, once, and in order. The second
component is what the stack held each time the frame came in. -/
theorem each_message_once (hn : n = 2 ∨ n = 8) (node : Rimeaddr n) (cs : List Channel) (b : Packetbuf n)
    (as : List (Message n × List UInt8 × List (Frame × Mem)))
    (hkeys : (as.map (·.1.key)).Nodup) (hnull : ∀ a ∈ as, a.1.key ∉ (noSeqnos : List (Seqno n)))
    (hsent : ∀ a ∈ as, a.1.Sends a.2.1) (hcs : ∀ a ∈ as, a.1.Agrees cs) (hheard : ∀ a ∈ as, a.2.2 ≠ []) :
    hearAll node cs ⟨noSeqnos, b⟩ (as.flatMap fun a => a.2.2.map fun p => ((a.2.1, p.1), p.2)) =
      as.filterMap fun a => a.1.received node cs := by
  obtain ⟨arrivals, harr⟩ : ∃ arrivals, (as.flatMap fun a => a.2.2.map fun p =>
      ((a.1, (a.2.1, p.1), p.2) : Message n × Arrival × Mem)) = arrivals := ⟨_, rfl⟩
  have hmem : ∀ x ∈ arrivals, ∃ a ∈ as, x.1 = a.1 ∧ x.2.1.1 = a.2.1 := fun x hx => by
    rw [← harr] at hx
    obtain ⟨a, ha, hx⟩ := List.mem_flatMap.mp hx
    obtain ⟨p, -, rfl⟩ := List.mem_map.mp hx
    exact ⟨a, ha, rfl, rfl⟩
  have hheard' := hearAll_eq hn node cs ⟨noSeqnos, b⟩
    (fun x hx => by
      obtain ⟨a, ha, h1, h2⟩ := hmem x hx
      rw [h1, h2]
      exact hsent a ha)
    (fun x hx => by
      obtain ⟨a, ha, h1, -⟩ := hmem x hx
      rw [h1]
      exact hcs a ha)
  have hmap2 : arrivals.map (·.2) =
      as.flatMap fun a => a.2.2.map fun p => ((a.2.1, p.1), p.2) := by
    rw [← harr, List.map_flatMap]
    simp only [List.map_map]
    rfl
  have hmap1 : arrivals.map (·.1) = (as.map fun a => (a.1, a.2.2.length - 1)).flatMap
      fun m => List.replicate (m.2 + 1) m.1 := by
    rw [← harr, List.map_flatMap, List.flatMap_map]
    refine List.flatMap_congr fun a ha => ?_
    have hpos := List.length_pos_iff.mpr (hheard a ha)
    rw [List.map_map, Nat.sub_add_cancel hpos]
    exact List.map_const' ..
  have honce := mailbox_once node cs (as.map fun a => (a.1, a.2.2.length - 1))
    (by rwa [List.map_map]) (fun m hm => by
      obtain ⟨a, ha, rfl⟩ := List.mem_map.mp hm
      exact hnull a ha)
  rw [hmap1, hmap2] at hheard'
  rw [hheard', honce, List.filterMap_map]
  rfl

theorem each_message_once_hello : ∃ bytes, hello.Sends bytes ∧
    ∀ b : Packetbuf 2, hearAll hello.receiver [openedChannel .unicast 129] ⟨noSeqnos, b⟩
      [((bytes, dataFrame), fun _ => 1), ((bytes, dataFrame), fun _ => 2)] =
        [(.unicast 4 hello.sender, [104, 105])] := by
  obtain ⟨bytes, hbytes⟩ := exists_sends (m := hello) (by decide) (by decide) true
  refine ⟨bytes, hbytes, fun b => ?_⟩
  have honce := each_message_once (.inl rfl) hello.receiver [openedChannel .unicast 129] b
    [(hello, bytes, [(dataFrame, fun _ => 1), (dataFrame, fun _ => 2)])]
    (List.nodup_singleton _)
    (List.forall_mem_singleton.mpr (show hello.key ∉ (noSeqnos : List (Seqno 2)) by decide))
    (List.forall_mem_singleton.mpr hbytes) (List.forall_mem_singleton.mpr hello_agrees)
    (List.forall_mem_singleton.mpr (List.cons_ne_nil _ _))
  exact honce.trans rfl

end Adler.Net
