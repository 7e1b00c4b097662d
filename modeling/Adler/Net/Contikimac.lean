/-
  `contikimac.c`: what ContikiMAC puts on the air and what it hands up. The strobing itself, when the
  radio is on and the acknowledgements are matters of time and left out.

  A packet is repeated on the air until its receiver is awake, so that a node hears most of them more
  than once.

  * `prepare_spec`: the bytes handed to the radio are the MAC header, two bytes with the length, and
    the packet; the padding of short packets is not among them.
  * `input_prepare`: another node hands up exactly that packet, when it is addressed and the frame fits
    the radio.
  * `handed_up`: over any frames at all, a packet is not handed up again before 16 others were, and no
    frame is dropped as a repetition for any other reason.
-/
import Adler.Net.Framer
import Adler.Lib.Recent

namespace Adler.Net

open Lib Packetbuf

variable {n : ℕ}

/-- `CC2420_MAX_PACKET_LEN` without the footer. -/
@[simp] abbrev maxFrame : ℕ := 125

@[simp] abbrev shortestPacketSize : ℕ := 43

@[simp] abbrev contikimacId : UInt8 := 0

/-- `struct seqno` -/
structure Seqno (n : ℕ) where
  sender : Rimeaddr n
  seqno : UInt8
  deriving DecidableEq

/-- `received_seqnos` of a node that has just been started. -/
def noSeqnos : List (Seqno n) := List.replicate 16 ⟨rimeaddrNull, 0⟩

/-- The zeros behind a short packet. -/
def pad (b : Packetbuf n) : Packetbuf n :=
  if b.totlen < shortestPacketSize then
    { b with mem :=
        Mem.copy b.mem (b.dataptr + b.buflen) (List.replicate (shortestPacketSize - b.totlen) 0) }
  else b

/-- `send_packet` up to `NETSTACK_RADIO.prepare`: the bytes for the radio, or nothing. -/
def prepare (node : Rimeaddr n) (rand : UInt16) (f : Framer) (b : Packetbuf n) :
    Option (List UInt8) × Framer × Packetbuf n :=
  if b.totlen = 0 then (none, f, b)
  else
    let b := b.setAddr .sender node
    let b := b.setAttr .macAck 1
    let len := b.totlen
    match b.hdralloc 2 with
    | none => (none, f, b)
    | some b =>
      let b := b.write [contikimacId, UInt8.ofNat len]
      match f.create node rand b with
      | (none, f, b) => (none, f, b.hdrRemove 2)
      | (some hdrlen, f, b) =>
        let b := (pad b).compact
        (some (Mem.read b.mem b.hdrptr b.totlen), f, b.hdrRemove (hdrlen + 2))

/-- What the radio driver leaves in the buffer for a frame on the air: nothing when it is longer than
frames can be. -/
def receive (b : Packetbuf n) (bytes : List UInt8) : Packetbuf n :=
  let b := b.clear
  if maxFrame < bytes.length then b.setDatalen 0
  else { b with mem := Mem.copy b.mem b.dataptr bytes }.setDatalen bytes.length

/-- `input_packet`: whether the packet is handed up. -/
def input (node : Rimeaddr n) (pf : Frame) (seen : List (Seqno n)) (b : Packetbuf n) :
    Bool × List (Seqno n) × Packetbuf n :=
  if b.totlen = 0 then (false, seen, b)
  else
    match Framer.parse pf b with
    | (none, b) => (false, seen, b)
    | (some _, b) =>
      let id := b.mem b.dataptr
      let len := b.mem (b.dataptr + 1)
      if id ≠ contikimacId then (false, seen, b)
      else
        let b := ((b.hdrreduce 2).getD b).setDatalen len.toNat
        if 0 < b.buflen ∧ 0 < b.totlen ∧
            (b.addrs .receiver = node ∨ b.addrs .receiver = rimeaddrNull) then
          if seen.any fun e => b.attrs .packetId = e.seqno.toUInt16 ∧ b.addrs .sender = e.sender then
            (false, seen, b)
          else (true, ⟨b.addrs .sender, (b.attrs .packetId).toUInt8⟩ :: seen.dropLast, b)
        else (false, seen, b)

/-! ## Sending -/

theorem pad_packet {b : Packetbuf n} (h : b.Ok) :
    (pad b).Ok ∧ (pad b).header = b.header ∧ (pad b).data = b.data ∧ (pad b).attrs = b.attrs ∧
      (pad b).addrs = b.addrs := by
  unfold pad
  split
  · have hhdr : b.hdrptr ≤ 48 := h.hdr
    refine ⟨⟨h.hdr, h.data, h.tot⟩, ?_, ?_, rfl, rfl⟩
    · exact Mem.read_copy_disjoint _ _ _ _ _
        (.inl (show b.hdrptr + (48 - b.hdrptr) ≤ b.bufptr + 48 + b.buflen by omega))
    · exact Mem.read_copy_disjoint _ _ _ _ _
        (.inl (show 48 + b.bufptr + b.buflen ≤ b.bufptr + 48 + b.buflen by omega))
  · exact ⟨h, rfl, rfl, rfl, rfl⟩

/-- The packet as it goes to the framer. -/
def addressed (node : Rimeaddr n) (b : Packetbuf n) : Packetbuf n :=
  (b.setAddr .sender node).setAttr .macAck 1

/-- The bytes for the radio: the MAC header, the header of ContikiMAC, and the packet. -/
theorem prepare_spec (node : Rimeaddr n) (rand : UInt16) (f : Framer) {b : Packetbuf n} (h : b.Ok)
    (h0 : b.totlen ≠ 0)
    (hr : b.Room (2 + (Net.hdrlen (f.frame node rand (addressed node b))).1)) :
    ∃ b', prepare node rand f b =
        (some (header (f.frame node rand (addressed node b)) ++ [contikimacId, UInt8.ofNat b.totlen] ++
          b.header ++ b.data), (f.seqno rand (addressed node b)).2.1, b') ∧
      b'.Ok ∧ b'.header = b.header ∧ b'.data = b.data := by
  have hok : (addressed node b).Ok := ⟨h.hdr, h.data, h.tot⟩
  set id : List UInt8 := [contikimacId, UInt8.ofNat b.totlen]
  have hr' : (addressed node b).Room (id.length + (Net.hdrlen (f.frame node rand (addressed node b))).1) :=
    hr
  obtain ⟨b1, hsome, hok1, hheader1, hdata1, -, hbufptr, hbuflen, hattrs, haddrs⟩ :=
    hdralloc_write hok (hr'.mono (Nat.le_add_right ..))
  have hattrs1 : (b1.write id).attrs = (addressed node b).attrs := hattrs
  have hframe : f.frame node rand (b1.write id) = f.frame node rand (addressed node b) :=
    frame_congr node rand f hattrs haddrs hbufptr hbuflen
  have hseq := (seqno_congr rand f hattrs1).2
  obtain ⟨b2, hcreate, hok2, hheader2, hdata2, -⟩ := create_spec node rand f hok1
    (hframe ▸ hr'.split hheader1 hdata1)
  obtain ⟨hok3, hheader3, hdata3, -, -⟩ := pad_packet hok2
  have hok4 := compact_ok hok3
  have hheader4 : (pad b2).compact.header =
      header (f.frame node rand (addressed node b)) ++ (id ++ b.header) := by
    rw [compact_header hok3, hheader3, hheader2, hheader1, hframe]
    rfl
  have hdata4 : (pad b2).compact.data = b.data := by
    rw [compact_data, hdata3, hdata2, hdata1]
    rfl
  have hlen : (header (f.frame node rand (addressed node b)) ++ id).length =
      (Net.hdrlen (f.frame node rand (addressed node b))).1 + 2 := by
    rw [List.length_append, length_header]
    rfl
  obtain ⟨hok5, hheader5⟩ := hdrRemove_spec hok4
    ((Net.hdrlen (f.frame node rand (addressed node b))).1 + 2) (by
      rw [hheader4, ← List.append_assoc, List.length_append, hlen]
      omega)
  refine ⟨_, ?_, hok5, ?_, hdata4⟩
  · rw [prepare, if_neg h0]
    dsimp only
    rw [show ((b.setAddr .sender node).setAttr .macAck 1).hdralloc 2 = some b1 from hsome]
    dsimp only
    rw [show b1.write [contikimacId, UInt8.ofNat ((b.setAddr .sender node).setAttr .macAck 1).totlen] =
      b1.write id from rfl, hcreate]
    dsimp only
    rw [read_totlen hok4 (compact_bufptr _), hheader4, hdata4, hseq, hframe, ← List.append_assoc]
  · rw [hheader5, hheader4, ← List.append_assoc]
    exact List.drop_left' hlen

/-- Without room for the headers nothing is sent. -/
theorem prepare_none (node : Rimeaddr n) (rand : UInt16) (f : Framer) {b : Packetbuf n} (h : b.Ok)
    (hr : ¬ b.Room (2 + (Net.hdrlen (f.frame node rand (addressed node b))).1)) :
    (prepare node rand f b).1 = none := by
  have hok : (addressed node b).Ok := ⟨h.hdr, h.data, h.tot⟩
  by_cases h0 : b.totlen = 0
  · rw [prepare, if_pos h0]
  rw [prepare, if_neg h0]
  dsimp only
  by_cases hr2 : (addressed node b).Room 2
  · set id : List UInt8 := [contikimacId, UInt8.ofNat b.totlen]
    obtain ⟨b1, hsome, hok1, hheader1, hdata1, -, hbufptr, hbuflen, hattrs, haddrs⟩ :=
      hdralloc_write hok (show (addressed node b).Room id.length from hr2)
    have hframe : f.frame node rand (b1.write id) = f.frame node rand (addressed node b) :=
      frame_congr node rand f hattrs haddrs hbufptr hbuflen
    have hno : ¬ (b1.write id).Room (Net.hdrlen (f.frame node rand (b1.write id))).1 := by
      rw [hframe]
      rintro ⟨h1, h2⟩
      rw [hheader1, hdata1, List.length_append] at h2
      rw [hheader1, List.length_append] at h1
      refine hr ⟨?_, ?_⟩
      · show (addressed node b).header.length + _ ≤ _
        rw [show id.length = 2 from rfl] at h1
        omega
      · show (addressed node b).header.length + (addressed node b).data.length + _ ≤ _
        rw [show id.length = 2 from rfl] at h2
        omega
    rw [show ((b.setAddr .sender node).setAttr .macAck 1).hdralloc 2 = some b1 from hsome]
    dsimp only
    rw [show b1.write [contikimacId, UInt8.ofNat ((b.setAddr .sender node).setAttr .macAck 1).totlen] =
      b1.write id from rfl, create_none node rand f hok1 hno]
  · rcases hdralloc_eq hok 2 with ⟨hnone, -⟩ | ⟨-, hroom, -⟩
    · rw [show ((b.setAddr .sender node).setAttr .macAck 1).hdralloc 2 = none from hnone]
    · exact absurd hroom hr2

/-! ## Receiving -/

theorem receive_spec (b : Packetbuf n) {bytes : List UInt8} (h : bytes.length ≤ maxFrame) :
    (receive b bytes).Ok ∧ (receive b bytes).header = [] ∧ (receive b bytes).data = bytes ∧
      (receive b bytes).buflen = bytes.length ∧ (receive b bytes).attrs = (fun _ => 0) ∧
      (receive b bytes).addrs = fun _ => rimeaddrNull := by
  unfold receive
  rw [if_neg (Nat.not_lt.mpr h)]
  have h125 : bytes.length ≤ 125 := h
  refine ⟨⟨Nat.le_refl _, show 0 + bytes.length ≤ 128 by omega,
    show 48 - 48 + bytes.length ≤ 128 by omega⟩, rfl, ?_, rfl, rfl, rfl⟩
  exact Mem.read_copy_self ..

/-- A frame that is too long is not heard. -/
theorem input_long (node : Rimeaddr n) (pf : Frame) (seen : List (Seqno n)) (b : Packetbuf n)
    {bytes : List UInt8} (h : maxFrame < bytes.length) :
    input node pf seen (receive b bytes) = (false, seen, receive b bytes) := by
  have htot : (receive b bytes).totlen = 0 := by
    unfold receive
    rw [if_pos h]
    rfl
  rw [input, if_pos htot]

/-- The addresses at which a node takes packets: its own, and none. -/
theorem learnt_iff {receiver node : Rimeaddr n} :
    (learnt receiver rimeaddrNull = node ∨ learnt receiver rimeaddrNull = rimeaddrNull) ↔
      receiver = node ∨ receiver = rimeaddrNull ∨ receiver = rimeaddrAllOnes := by
  unfold learnt
  split
  · rename_i hcast
    exact iff_of_true (.inr rfl) (.inr hcast)
  · rename_i hcast
    rw [not_or] at hcast
    simp only [hcast.1, hcast.2, or_false]

theorem any_seen (seen : List (Seqno n)) (node : Rimeaddr n) (seq : UInt8) :
    (seen.any fun e => seq.toUInt16 = e.seqno.toUInt16 ∧ node = e.sender) = true ↔
      ⟨node, seq⟩ ∈ seen := by
  rw [List.any_eq_true]
  constructor
  · rintro ⟨⟨sender, seqno⟩, he, hd⟩
    obtain ⟨hseq, rfl⟩ := of_decide_eq_true hd
    have hseq : seq = seqno := by
      have := congrArg UInt16.toUInt8 hseq
      simpa using this
    exact hseq ▸ he
  · exact fun he => ⟨_, he, decide_eq_true ⟨rfl, rfl⟩⟩

/-- A frame another node has prepared is handed up as the packet it was made from, with its sender, its
receiver and its sequence number, when it fits the radio, is addressed to this node or to no one, and
is not a repetition. -/
theorem input_prepare (hn : n = 2 ∨ n = 8) (node : Rimeaddr n) (rand : UInt16) (f : Framer)
    {b : Packetbuf n} (h : b.Ok) (h0 : b.totlen ≠ 0)
    (hr : b.Room (2 + (Net.hdrlen (f.frame node rand (addressed node b))).1)) {bytes : List UInt8}
    (hbytes : (prepare node rand f b).1 = some bytes) (hfit : bytes.length ≤ maxFrame)
    (node' : Rimeaddr n) (pf : Frame) (seen : List (Seqno n)) (r : Packetbuf n) :
    ∃ r', r'.Ok ∧ r'.header = [] ∧ r'.data = b.header ++ b.data ∧ r'.addrs .sender = node ∧
      r'.addrs .receiver = learnt (b.addrs .receiver) rimeaddrNull ∧
      r'.attrs .packetId = (f.seqno rand (addressed node b)).1.toUInt16 ∧
      input node' pf seen (receive r bytes) =
        if (b.addrs .receiver = node' ∨ b.addrs .receiver = rimeaddrNull ∨
            b.addrs .receiver = rimeaddrAllOnes) ∧
            ⟨node, (f.seqno rand (addressed node b)).1⟩ ∉ seen then
          (true, ⟨node, (f.seqno rand (addressed node b)).1⟩ :: seen.dropLast, r')
        else (false, seen, r') := by
  obtain ⟨b', hprepare, -⟩ := prepare_spec node rand f h h0 hr
  rw [hprepare] at hbytes
  obtain rfl := Option.some.inj hbytes
  set seq := (f.seqno rand (addressed node b)).1
  set p := f.frame node rand (addressed node b)
  set rest : List UInt8 := [contikimacId, UInt8.ofNat b.totlen] ++ b.header ++ b.data
  have hall : header p ++ [contikimacId, UInt8.ofNat b.totlen] ++ b.header ++ b.data =
      header (params node (addressed node b) seq) ++ rest := by
    simp only [rest, List.append_assoc]
    rfl
  rw [hall] at hfit ⊢
  obtain ⟨hok, hheader, hdata, hbuflen, hattrs, haddrs⟩ := receive_spec r hfit
  have hparse := parse_spec hn node (addressed node b) seq pf hok hdata
  set q := receive r (header (params node (addressed node b) seq) ++ rest)
  set k := (Net.hdrlen (params node (addressed node b) seq)).1
  have hk : k ≤ q.buflen := by
    rw [hbuflen, List.length_append, length_header]
    exact Nat.le_add_right ..
  have htot : b.totlen ≤ 128 := h.tot
  have hrest : rest.length = 2 + b.totlen := by
    simp only [rest, List.length_append, Packetbuf.length_header, length_data, totlen,
      Packetbuf.hdrlen, List.length_cons, List.length_nil]
    omega
  obtain ⟨hok1, hdata1⟩ := taken_spec node (addressed node b) seq hok hk
  rw [hdata, List.drop_left' (length_header _)] at hdata1
  obtain ⟨t, ht⟩ : ∃ t, Framer.taken node (addressed node b) seq q k = t := ⟨_, rfl⟩
  have hheader1 : t.header = [] := ht ▸ hheader
  have hsender : t.addrs .sender = node := ht ▸ taken_sender ..
  have hreceiver : t.addrs .receiver = learnt (b.addrs .receiver) rimeaddrNull := by
    rw [← ht, taken_receiver, haddrs]
    rfl
  have hpacketId : t.attrs .packetId = seq.toUInt16 := ht ▸ taken_packetId ..
  rw [ht] at hok1 hdata1 hparse
  have hbuflen1 : t.buflen = 2 + b.totlen := by rw [← t.length_data, hdata1, hrest]
  -- the two bytes of the header, and what is behind them
  have hholds : t.mem.Holds t.dataptr rest := by
    rw [Mem.Holds, ← hdata1, t.length_data, dataptr, Nat.add_comm]
    rfl
  obtain ⟨hid, hlen, -⟩ : t.mem t.dataptr = contikimacId ∧
      t.mem (t.dataptr + 1) = UInt8.ofNat b.totlen ∧ t.mem.Holds _ (b.header ++ b.data) := by
    simpa [rest, Mem.holds_cons] using hholds
  obtain ⟨hred, hok2, hdata2⟩ := hdrreduce_spec hok1 2 (by omega)
  refine ⟨{ t with bufptr := t.bufptr + 2, buflen := t.buflen - 2 }, hok2, hheader1, ?_, hsender,
    hreceiver, hpacketId, ?_⟩
  · rw [hdata2, hdata1]
    rfl
  · have hset : ({ t with bufptr := t.bufptr + 2, buflen := t.buflen - 2 } : Packetbuf n).setDatalen
        (UInt8.ofNat b.totlen).toNat = { t with bufptr := t.bufptr + 2, buflen := t.buflen - 2 } := by
      rw [UInt8.toNat_ofNat', Nat.mod_eq_of_lt (by omega), setDatalen,
        show b.totlen = t.buflen - 2 by omega]
    have hq : q.totlen ≠ 0 := by
      have := Nat.le_trans (hdrlen_pos _) hk
      unfold totlen
      omega
    have hpos : 0 < t.buflen - 2 := by omega
    have hpos' : 0 < ({ t with bufptr := t.bufptr + 2, buflen := t.buflen - 2 } : Packetbuf n).totlen :=
      Nat.lt_of_lt_of_le hpos (Nat.le_add_left ..)
    rw [input, if_neg hq, hparse]
    dsimp only
    rw [hid, if_neg (not_not_intro rfl), hlen, hred, Option.getD_some, hset, hsender, hreceiver,
      hpacketId, UInt8.toUInt8_toUInt16]
    simp only [hpos, hpos', true_and, learnt_iff, any_seen]
    by_cases hto : b.addrs .receiver = node' ∨ b.addrs .receiver = rimeaddrNull ∨
        b.addrs .receiver = rimeaddrAllOnes
    · simp only [hto, true_and, if_true]
      by_cases hseen : (⟨node, seq⟩ : Seqno n) ∈ seen
      · simp only [hseen, not_true_eq_false, if_true, if_false]
      · simp only [hseen, not_false_eq_true, if_true, if_false]
    · simp only [hto, false_and, if_false]

/-! ## Repetitions -/

theorem parse_packetId {pf : Frame} {b b' : Packetbuf n} {len : ℕ}
    (h : Framer.parse pf b = (some len, b')) :
    b'.attrs .packetId = (Net.parse n b.mem b.dataptr b.buflen pf).2.seq.toUInt16 := by
  unfold Framer.parse at h
  dsimp only at h
  split at h
  · cases h
  · split at h
    · cases h
    · split at h
      · cases h
      · obtain ⟨-, rfl⟩ := Prod.mk.inj h
        simp [setAttr]

/-- What `input_packet` remembers of a packet. -/
def Packetbuf.key (b : Packetbuf n) : Seqno n := ⟨b.addrs .sender, (b.attrs .packetId).toUInt8⟩

/-- The part of `input_packet` before it looks for repetitions: whether the packet is well formed and
for this node. -/
def accepted (node : Rimeaddr n) (pf : Frame) (b : Packetbuf n) : Bool × Packetbuf n :=
  if b.totlen = 0 then (false, b)
  else
    match Framer.parse pf b with
    | (none, b) => (false, b)
    | (some _, b) =>
      let id := b.mem b.dataptr
      let len := b.mem (b.dataptr + 1)
      if id ≠ contikimacId then (false, b)
      else
        let b := ((b.hdrreduce 2).getD b).setDatalen len.toNat
        (0 < b.buflen ∧ 0 < b.totlen ∧
          (b.addrs .receiver = node ∨ b.addrs .receiver = rimeaddrNull), b)

/-- `input_packet` hands up what it accepts unless it remembers it. -/
theorem input_eq (node : Rimeaddr n) (pf : Frame) (seen : List (Seqno n)) (b : Packetbuf n) :
    input node pf seen b =
      if (accepted node pf b).1 ∧ (accepted node pf b).2.key ∉ seen then
        (true, Recent.remember seen (accepted node pf b).2.key, (accepted node pf b).2)
      else (false, seen, (accepted node pf b).2) := by
  by_cases htot : b.totlen = 0
  · have hacc : accepted node pf b = (false, b) := if_pos htot
    rw [hacc, input, if_pos htot]
    simp
  · obtain ⟨x, hx⟩ : ∃ x, Framer.parse pf b = x := ⟨_, rfl⟩
    obtain ⟨_ | len, t⟩ := x
    · have hacc : accepted node pf b = (false, t) := by
        rw [accepted, if_neg htot, hx]
      rw [hacc, input, if_neg htot, hx]
      simp
    · have hid := parse_packetId hx
      by_cases hmagic : t.mem t.dataptr = contikimacId
      · obtain ⟨u, hu⟩ : ∃ u, ((t.hdrreduce 2).getD t).setDatalen (t.mem (t.dataptr + 1)).toNat = u :=
          ⟨_, rfl⟩
        have hattrs : u.attrs = t.attrs := by
          rw [← hu]
          unfold Packetbuf.hdrreduce
          split <;> rfl
        have hacc : accepted node pf b = (decide (0 < u.buflen ∧ 0 < u.totlen ∧
            (u.addrs .receiver = node ∨ u.addrs .receiver = rimeaddrNull)), u) := by
          rw [accepted, if_neg htot, hx]
          dsimp only
          rw [if_neg (not_not_intro hmagic), hu]
        rw [hacc, input, if_neg htot, hx]
        dsimp only
        rw [if_neg (not_not_intro hmagic), hu, Packetbuf.key, hattrs, hid, UInt8.toUInt8_toUInt16]
        simp only [any_seen, decide_eq_true_eq, Recent.remember]
        split
        · rename_i hfor
          simp only [hfor, true_and]
          split <;> rfl
        · rename_i hfor
          simp only [hfor, false_and, if_false]
      · have hacc : accepted node pf b = (false, t) := by
          rw [accepted, if_neg htot, hx]
          exact if_pos hmagic
        rw [hacc, input, if_neg htot, hx]
        dsimp only
        rw [if_pos hmagic]
        simp

/-- A frame that arrives, with what the stack held where it is parsed. -/
abbrev Arrival := List UInt8 × Frame

/-- The variables of the layer on the side of the receiver. -/
structure Mac (n : ℕ) where
  seen : List (Seqno n)
  buf : Packetbuf n

/-- The node hears a frame; whether it hands a packet up. -/
def Mac.step (node : Rimeaddr n) (s : Mac n) (a : Arrival) : Bool × Mac n :=
  let (up, seen, buf) := input node a.2 s.seen (receive s.buf a.1)
  (up, ⟨seen, buf⟩)

/-- A run, with the packets that are handed up. -/
def Mac.run (node : Rimeaddr n) (s : Mac n) : List Arrival → List (Seqno n) × Mac n
  | [] => ([], s)
  | a :: as =>
    let (up, s) := s.step node a
    let (ups, s') := Mac.run node s as
    (if up then s.buf.key :: ups else ups, s')

/-- The packets that are well formed and for this node, repetitions and all. -/
def heard (node : Rimeaddr n) (b : Packetbuf n) : List Arrival → List (Seqno n)
  | [] => []
  | a :: as =>
    let (up, b) := accepted node a.2 (receive b a.1)
    if up then b.key :: heard node b as else heard node b as

/-- What is handed up is what is heard, but for what is remembered. -/
theorem run_passed (node : Rimeaddr n) (s : Mac n) (as : List Arrival) :
    (s.run node as).1 = Recent.passed s.seen (heard node s.buf as) ∧
      (s.run node as).2.seen = Recent.table s.seen (heard node s.buf as) := by
  induction as generalizing s with
  | nil => exact ⟨rfl, rfl⟩
  | cons a as ih =>
    rw [Mac.run, Mac.step, heard, input_eq]
    generalize accepted node a.2 (receive s.buf a.1) = x
    obtain ⟨up, b⟩ := x
    dsimp only
    by_cases hup : up = true
    · by_cases hseen : b.key ∈ s.seen
      · simp only [hup, hseen, not_true_eq_false, and_false, if_false, if_true, Recent.passed,
          Recent.table, Bool.false_eq_true]
        exact ih _
      · simp only [hup, hseen, not_false_eq_true, and_true, if_true, if_false, Recent.passed,
          Recent.table]
        exact ⟨congrArg _ (ih _).1, (ih _).2⟩
    · simp only [hup, false_and, if_false, Bool.false_eq_true]
      exact ih _

/-- Whatever frames arrive at a node, and however often: no packet is handed up again before 16 others
were, and a packet that is well formed and for this node is only dropped when it is among the last 16
that were handed up, or when it looks like the zeros the table starts with. -/
theorem handed_up (node : Rimeaddr n) (b : Packetbuf n) (as : List Arrival) :
    (∀ pre k post, (Mac.run node ⟨noSeqnos, b⟩ as).1 = pre ++ k :: post → k ∉ post.take 16) ∧
      ∀ a, ((Mac.run node ⟨noSeqnos, b⟩ as).2.step node a).1 = true ↔
        (accepted node a.2 (receive (Mac.run node ⟨noSeqnos, b⟩ as).2.buf a.1)).1 = true ∧
          (accepted node a.2 (receive (Mac.run node ⟨noSeqnos, b⟩ as).2.buf a.1)).2.key ∉
            ((Mac.run node ⟨noSeqnos, b⟩ as).1.reverse ++ noSeqnos).take 16 := by
  obtain ⟨hpassed, htable⟩ := run_passed node ⟨noSeqnos, b⟩ as
  have hne : (noSeqnos : List (Seqno n)) ≠ [] := List.cons_ne_nil _ _
  refine ⟨fun pre k post h => ?_, fun a => ?_⟩
  · rw [hpassed] at h
    exact Recent.passed_window hne _ h
  · have hseen := Recent.table_passed hne (heard node b as)
    rw [Mac.step, input_eq, htable, hseen, hpassed]
    dsimp only
    rw [show (noSeqnos : List (Seqno n)).length = 16 from rfl]
    split
    · rename_i h
      exact iff_of_true rfl h
    · rename_i h
      exact iff_of_false Bool.false_ne_true h

end Adler.Net
