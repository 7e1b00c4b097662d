/-
  `framer-802154.c`: the MAC header between the buffer and the frame.

  `create_spec`, `parse_spec`: what the framer of one node puts in front of a packet, that of another
  takes off again, and learns from it who sent the packet, to whom, and under which sequence number.

  `RIMEADDR_SIZE` is 2 or 8.
-/
import Adler.Net.Frame802154
import Adler.Net.Packetbuf
import Mathlib.Data.Fintype.Basic

namespace Adler.Net

open Lib Packetbuf

variable {n : ℕ}

/-- `IEEE802154_PANID` -/
@[simp] abbrev panid : UInt16 := 0xABCD

/-- `FRAME802154_BROADCASTPANDID` -/
@[simp] abbrev broadcastpandid : UInt16 := 0xFFFF

/-- `rimeaddr_copy` into the address field of a frame. -/
def Rimeaddr.toField (a : Rimeaddr n) (addr : Mem) : Mem := Mem.copy addr 0 (List.ofFn a)

/-- The rime address in the address field of a frame. -/
def Rimeaddr.ofField (n : ℕ) (addr : Mem) : Rimeaddr n := fun i => addr i

/-- The variables of the framer. -/
structure Framer where
  macDsn : UInt8
  initialized : Bool

/-- `is_broadcast_addr` -/
def isBroadcastAddr (mode : UInt8) (addr : Mem) : Bool :=
  (List.range (if mode = shortaddrmode then 2 else 8)).all fun i => addr i == 0xff

/-- The mode of rime addresses. -/
def addrMode (n : ℕ) : UInt8 := if n = 2 then shortaddrmode else longaddrmode

/-- The frame `create` fills in. -/
def params (node : Rimeaddr n) (b : Packetbuf n) (seq : UInt8) : Frame :=
  let receiver := b.addrs .receiver
  { fcf :=
      { frameType := 1
        securityEnabled := 0
        framePending := (b.attrs .pending).toUInt8
        ackRequired := if receiver = rimeaddrNull then 0 else (b.attrs .macAck).toUInt8
        panidCompression := 0
        destAddrMode := if receiver = rimeaddrNull then shortaddrmode else addrMode n
        frameVersion := 0
        srcAddrMode := addrMode n }
    seq := seq
    destPid := panid
    destAddr :=
      if receiver = rimeaddrNull then Function.update (Function.update (fun _ => 0) 0 0xff) 1 0xff
      else receiver.toField fun _ => 0
    srcPid := panid
    srcAddr := node.toField fun _ => 0
    payload := b.dataptr
    payloadLen := UInt8.ofNat b.buflen }

/-- The sequence number of the frame: the one that was asked for, else the next one. -/
def Framer.seqno (rand : UInt16) (f : Framer) (b : Packetbuf n) : UInt8 × Framer × Packetbuf n :=
  let f := if f.initialized then f else { initialized := true, macDsn := rand.toUInt8 }
  if b.attrs .macSeqno ≠ 0 then ((b.attrs .macSeqno).toUInt8, f, b)
  else (f.macDsn, { f with macDsn := f.macDsn + 1 }, b.setAttr .macSeqno f.macDsn.toUInt16)

/-- `create`; `rand` is what `random_rand` returns. -/
def Framer.create (node : Rimeaddr n) (rand : UInt16) (f : Framer) (b : Packetbuf n) :
    Option ℕ × Framer × Packetbuf n :=
  let (seq, f, b) := f.seqno rand b
  let (len, p) := Net.hdrlen (params node b seq)
  match b.hdralloc len with
  | some b => (some len, f, { b with mem := (Net.create p b.mem b.hdrptr len).2.2 })
  | none => (none, f, b)

/-- `parse`; `pf` is what the frame on the stack held before. -/
def Framer.parse (pf : Frame) (b : Packetbuf n) : Option ℕ × Packetbuf n :=
  let len := b.buflen
  let (c, frame) := Net.parse n b.mem b.dataptr len pf
  if c = 0 then (none, b)
  else
    match b.hdrreduce (len - frame.payloadLen.toNat) with
    | none => (none, b)
    | some b =>
      if frame.fcf.destAddrMode ≠ 0 ∧ frame.destPid ≠ panid ∧ frame.destPid ≠ broadcastpandid then
        (none, b)
      else
        let b :=
          if frame.fcf.destAddrMode ≠ 0 ∧ ¬ isBroadcastAddr frame.fcf.destAddrMode frame.destAddr then
            b.setAddr .receiver (Rimeaddr.ofField n frame.destAddr)
          else b
        let b := b.setAddr .sender (Rimeaddr.ofField n frame.srcAddr)
        let b := b.setAttr .pending frame.fcf.framePending.toUInt16
        let b := b.setAttr .packetId frame.seq.toUInt16
        (some (len - frame.payloadLen.toNat), b)

/-! ## What is put in front -/

theorem addrLen_addrMode (hn : n = 2 ∨ n = 8) : addrLen (addrMode n) = n := by
  rcases hn with rfl | rfl <;> rfl

theorem addrMode_and (n : ℕ) : addrMode n &&& 3 = addrMode n := by
  unfold addrMode
  split <;> decide

theorem addrMode_ne_zero (n : ℕ) : addrMode n ≠ 0 := by
  unfold addrMode
  split <;> decide

/-- How long the header is: one PAN ID, and a receiver that is short when there is none. -/
theorem hdrlen_params (hn : n = 2 ∨ n = 8) (node : Rimeaddr n) (b : Packetbuf n) (seq : UInt8) :
    (Net.hdrlen (params node b seq)).1 =
      5 + n + if b.addrs .receiver = rimeaddrNull then 2 else n := by
  have hsrc : (params node b seq).fcf.srcAddrMode &&& 3 = addrMode n := addrMode_and n
  have hpids : (params node b seq).srcPid = (params node b seq).destPid := rfl
  have hdest : (params node b seq).fcf.destAddrMode &&& 3 ≠ 0 ∧
      addrLen ((params node b seq).fcf.destAddrMode &&& 3) =
        if b.addrs .receiver = rimeaddrNull then 2 else n := by
    by_cases hnull : b.addrs .receiver = rimeaddrNull
    · have hmode : (params node b seq).fcf.destAddrMode = shortaddrmode := if_pos hnull
      rw [hmode, if_pos hnull]
      decide
    · have hmode : (params node b seq).fcf.destAddrMode = addrMode n := if_neg hnull
      rw [hmode, if_neg hnull, addrMode_and]
      exact ⟨addrMode_ne_zero n, addrLen_addrMode hn⟩
  simp only [Net.hdrlen, fieldLen, FieldLength.total, hsrc, hpids, hdest.1, hdest.2,
    addrMode_ne_zero, addrLen_addrMode hn, ne_eq, not_false_eq_true, and_self, if_true]
  omega

theorem hdrlen_fieldLen (p : Frame) : (Net.hdrlen (Net.hdrlen p).2).1 = (Net.hdrlen p).1 := rfl

/-- The framer leaves the packet as it is but for the sequence number. -/
theorem seqno_frame (rand : UInt16) (f : Framer) (b : Packetbuf n) :
    (f.seqno rand b).2.2.mem = b.mem ∧ (f.seqno rand b).2.2.hdrptr = b.hdrptr ∧
      (f.seqno rand b).2.2.bufptr = b.bufptr ∧ (f.seqno rand b).2.2.buflen = b.buflen ∧
      (f.seqno rand b).2.2.addrs = b.addrs ∧
      ∀ a ≠ .macSeqno, (f.seqno rand b).2.2.attrs a = b.attrs a := by
  unfold Framer.seqno
  dsimp only
  split
  · exact ⟨rfl, rfl, rfl, rfl, rfl, fun _ _ => rfl⟩
  · exact ⟨rfl, rfl, rfl, rfl, rfl, fun a ha => Function.update_of_ne ha ..⟩

/-- The frame that goes in front of a packet. -/
def Framer.frame (node : Rimeaddr n) (rand : UInt16) (f : Framer) (b : Packetbuf n) : Frame :=
  params node b (f.seqno rand b).1

theorem seqno_congr (rand : UInt16) (f : Framer) {b b' : Packetbuf n} (hattrs : b'.attrs = b.attrs) :
    (f.seqno rand b').1 = (f.seqno rand b).1 ∧ (f.seqno rand b').2.1 = (f.seqno rand b).2.1 := by
  unfold Framer.seqno
  rw [hattrs]
  by_cases h : b.attrs .macSeqno = 0
  · simp only [h, ne_eq, not_true_eq_false, if_false]
    exact ⟨trivial, trivial⟩
  · simp only [h, ne_eq, not_false_eq_true, if_true]
    exact ⟨trivial, trivial⟩

theorem frame_congr (node : Rimeaddr n) (rand : UInt16) (f : Framer) {b b' : Packetbuf n}
    (hattrs : b'.attrs = b.attrs) (haddrs : b'.addrs = b.addrs) (hbufptr : b'.bufptr = b.bufptr)
    (hbuflen : b'.buflen = b.buflen) : f.frame node rand b' = f.frame node rand b := by
  unfold Framer.frame params dataptr
  rw [(seqno_congr rand f hattrs).1, hattrs, haddrs, hbufptr, hbuflen]

theorem params_seqno (node : Rimeaddr n) (rand : UInt16) (f : Framer) (b : Packetbuf n) (s : UInt8) :
    params node (f.seqno rand b).2.2 s = params node b s := by
  obtain ⟨-, -, hbufptr, hbuflen, haddrs, hattrs⟩ := seqno_frame rand f b
  unfold params dataptr
  rw [haddrs, hattrs .pending (by decide), hattrs .macAck (by decide), hbufptr, hbuflen]

theorem seqno_packet (rand : UInt16) (f : Framer) {b : Packetbuf n} (h : b.Ok) :
    (f.seqno rand b).2.2.Ok ∧ (f.seqno rand b).2.2.header = b.header ∧
      (f.seqno rand b).2.2.data = b.data := by
  obtain ⟨hmem, hhdrptr, hbufptr, hbuflen, -, -⟩ := seqno_frame rand f b
  have htot := h.tot
  unfold totlen Packetbuf.hdrlen at htot
  refine ⟨⟨hhdrptr ▸ h.hdr, hbufptr ▸ hbuflen ▸ h.data, ?_⟩, ?_, ?_⟩
  · unfold totlen Packetbuf.hdrlen
    rwa [hhdrptr, hbuflen]
  · unfold Packetbuf.header
    rw [hmem, hhdrptr]
  · unfold Packetbuf.data
    rw [hmem, hbufptr, hbuflen]

/-- The header is put in front of the packet, when there is room for it. -/
theorem create_spec (node : Rimeaddr n) (rand : UInt16) (f : Framer) {b : Packetbuf n} (h : b.Ok)
    (hr : b.Room (Net.hdrlen (f.frame node rand b)).1) :
    ∃ b', f.create node rand b =
        (some (Net.hdrlen (f.frame node rand b)).1, (f.seqno rand b).2.1, b') ∧ b'.Ok ∧
      b'.header = header (f.frame node rand b) ++ b.header ∧ b'.data = b.data ∧
      b'.hdrptr + (Net.hdrlen (f.frame node rand b)).1 = b.hdrptr ∧
      b'.bufptr = b.bufptr ∧ b'.buflen = b.buflen ∧ b'.addrs = b.addrs ∧
      b'.attrs = (f.seqno rand b).2.2.attrs := by
  obtain ⟨-, hhdrptr, hbufptr, hbuflen, haddrs, -⟩ := seqno_frame rand f b
  have hparams := params_seqno node rand f b (f.seqno rand b).1
  obtain ⟨hok, hheader, hdata⟩ := seqno_packet rand f h
  have hr' : (f.seqno rand b).2.2.Room (header (f.frame node rand b)).length := by
    unfold Packetbuf.Room
    rw [length_header, hheader, hdata]
    exact hr
  obtain ⟨b', hsome, hok', hheader', hdata', hptr', hbufptr', hbuflen', hattrs', haddrs'⟩ :=
    hdralloc_write hok hr'
  rw [length_header] at hsome hptr'
  refine ⟨b'.write (header (f.frame node rand b)), ?_, hok', by rw [hheader', hheader],
    by rw [hdata', hdata], hptr'.trans hhdrptr, hbufptr'.trans hbufptr, hbuflen'.trans hbuflen,
    haddrs'.trans haddrs, hattrs'⟩
  unfold Framer.create
  simp only [hparams]
  rw [show params node b (f.seqno rand b).1 = f.frame node rand b from rfl, hsome]
  simp only [create_eq]
  rw [hdrlen_fieldLen, if_neg (Nat.lt_irrefl _)]
  rfl

/-- Without room the packet is left as it is. -/
theorem create_none (node : Rimeaddr n) (rand : UInt16) (f : Framer) {b : Packetbuf n} (h : b.Ok)
    (hr : ¬ b.Room (Net.hdrlen (f.frame node rand b)).1) :
    f.create node rand b = (none, (f.seqno rand b).2) := by
  have hparams := params_seqno node rand f b (f.seqno rand b).1
  obtain ⟨hok, hheader, hdata⟩ := seqno_packet rand f h
  unfold Framer.create
  simp only [hparams]
  rw [show params node b (f.seqno rand b).1 = f.frame node rand b from rfl]
  rcases hdralloc_eq hok (Net.hdrlen (f.frame node rand b)).1 with ⟨hnone, -⟩ | ⟨-, hroom, -⟩
  · rw [hnone]
  · unfold Packetbuf.Room at hroom
    rw [hheader, hdata] at hroom
    exact absurd hroom hr

/-! ## What is taken off -/

theorem ofField_toField (a : Rimeaddr n) (addr : Mem) : Rimeaddr.ofField n (a.toField addr) = a := by
  funext i
  rw [Rimeaddr.ofField, Rimeaddr.toField, Mem.copy_of_mem _ _ _ (Nat.zero_le _) (by simp)]
  simp [List.getD_eq_getElem?_getD]

/-- Address bytes that agree are the same rime address. -/
theorem ofField_congr {addr addr' : Mem} (h : ∀ i < n, addr' i = addr i) :
    Rimeaddr.ofField n addr' = Rimeaddr.ofField n addr := funext fun i => h i i.isLt

/-- The address that counts as the broadcast address. -/
def rimeaddrAllOnes {n : ℕ} : Rimeaddr n := fun _ => 0xff

theorem isBroadcastAddr_iff (hn : n = 2 ∨ n = 8) (addr : Mem) :
    isBroadcastAddr (addrMode n) addr = true ↔ Rimeaddr.ofField n addr = rimeaddrAllOnes := by
  have hlen : (if addrMode n = shortaddrmode then 2 else 8) = n := by
    rcases hn with rfl | rfl <;> rfl
  rw [isBroadcastAddr, hlen, List.all_eq_true]
  simp only [List.mem_range, beq_iff_eq]
  exact ⟨fun h => funext fun i => h i i.isLt, fun h i hi => congrFun h ⟨i, hi⟩⟩

/-- The receiver of a packet as the other side learns it: none for a broadcast. -/
def learnt (receiver : Rimeaddr n) (old : Rimeaddr n) : Rimeaddr n :=
  if receiver = rimeaddrNull ∨ receiver = rimeaddrAllOnes then old else receiver

/-- What a parsed header tells about the packet. -/
structure Tells (node : Rimeaddr n) (b : Packetbuf n) (seq : UInt8) (q : Frame) : Prop where
  mode : q.fcf.destAddrMode ≠ 0
  pid : q.destPid = panid
  sender : Rimeaddr.ofField n q.srcAddr = node
  receiver : ¬ isBroadcastAddr q.fcf.destAddrMode q.destAddr ↔
    ¬ (b.addrs .receiver = rimeaddrNull ∨ b.addrs .receiver = rimeaddrAllOnes)
  addr : b.addrs .receiver ≠ rimeaddrNull → Rimeaddr.ofField n q.destAddr = b.addrs .receiver
  pending : q.fcf.framePending = (b.attrs .pending).toUInt8 &&& 1
  seqno : q.seq = seq

theorem tells_of_carries (hn : n = 2 ∨ n = 8) {node : Rimeaddr n} {b : Packetbuf n} {seq : UInt8}
    {q : Frame} (h : Carries n (params node b seq) q) : Tells node b seq q := by
  have hsm : (params node b seq).fcf.srcAddrMode &&& 3 = addrMode n := addrMode_and n
  have hsrc := h.srcAddr.same
  rw [hsm, addrLen_addrMode hn] at hsrc
  have hsender : Rimeaddr.ofField n q.srcAddr = node :=
    (ofField_congr hsrc).trans (ofField_toField node _)
  have hfcf : q.fcf.destAddrMode = (params node b seq).fcf.destAddrMode &&& 3 :=
    congrArg Fcf.destAddrMode h.fcf
  have hpending : q.fcf.framePending = (b.attrs .pending).toUInt8 &&& 1 :=
    congrArg Fcf.framePending h.fcf
  have hdest := h.destAddr.same
  have hpid := h.destPid
  rw [← hfcf] at hdest hpid
  by_cases hnull : b.addrs .receiver = rimeaddrNull
  · have hmode : q.fcf.destAddrMode = shortaddrmode := by
      rw [hfcf]
      simp only [params, if_pos hnull]
      decide
    have haddr : (params node b seq).destAddr =
        Function.update (Function.update (fun _ => 0) 0 0xff) 1 0xff := if_pos hnull
    rw [hmode] at hdest hpid
    rw [haddr] at hdest
    have h0 : q.destAddr 0 = 0xff := hdest 0 (by decide)
    have h1 : q.destAddr 1 = 0xff := hdest 1 (by decide)
    refine ⟨by rw [hmode]; decide, hpid, hsender, ?_, fun hn => absurd hnull hn, hpending, h.seq⟩
    have hall : isBroadcastAddr q.fcf.destAddrMode q.destAddr = true := by
      rw [hmode, isBroadcastAddr, if_pos rfl, List.all_eq_true]
      intro i hi
      obtain rfl | rfl : i = 0 ∨ i = 1 := by
        have := List.mem_range.mp hi
        omega
      · rw [h0, beq_self_eq_true]
      · rw [h1, beq_self_eq_true]
    exact iff_of_false (not_not_intro hall) (not_not_intro (.inl hnull))
  · have hmode : q.fcf.destAddrMode = addrMode n := by
      rw [hfcf]
      simp only [params, if_neg hnull]
      exact addrMode_and n
    have haddr : (params node b seq).destAddr = (b.addrs .receiver).toField fun _ => 0 := if_neg hnull
    rw [hmode, addrLen_addrMode hn, haddr] at hdest
    have hreceiver : Rimeaddr.ofField n q.destAddr = b.addrs .receiver :=
      (ofField_congr hdest).trans (ofField_toField _ _)
    refine ⟨hmode ▸ addrMode_ne_zero n, ?_, hsender, ?_, fun _ => hreceiver, hpending, h.seq⟩
    · rw [hpid, hmode, if_neg (addrMode_ne_zero n)]
      rfl
    · rw [hmode, isBroadcastAddr_iff hn, hreceiver, or_iff_right hnull]

/-- What the framer of another node makes of a packet `b` that arrived in `r`, behind `k` bytes of
header. -/
def Framer.taken (node : Rimeaddr n) (b : Packetbuf n) (seq : UInt8) (r : Packetbuf n) (k : ℕ) :
    Packetbuf n :=
  { r with
    bufptr := r.bufptr + k
    buflen := r.buflen - k
    addrs := Function.update
      (Function.update r.addrs .receiver (learnt (b.addrs .receiver) (r.addrs .receiver))) .sender node
    attrs := Function.update
      (Function.update r.attrs .pending ((b.attrs .pending).toUInt8 &&& 1).toUInt16)
      .packetId seq.toUInt16 }

/-- The framer of another node takes the header off and learns sender, receiver and sequence number. -/
theorem parse_spec (hn : n = 2 ∨ n = 8) (node : Rimeaddr n) (b : Packetbuf n) (seq : UInt8) (pf : Frame)
    {r : Packetbuf n} (h : r.Ok) {rest : List UInt8}
    (hd : r.data = header (params node b seq) ++ rest) :
    Framer.parse pf r = (some (Net.hdrlen (params node b seq)).1,
      Framer.taken node b seq r (Net.hdrlen (params node b seq)).1) := by
  have hlen : r.buflen = (Net.hdrlen (params node b seq)).1 + rest.length := by
    rw [← r.length_data, hd, List.length_append, length_header]
  have hholds : r.mem.Holds r.dataptr (header (params node b seq)) := by
    have hall : r.mem.Holds r.dataptr (header (params node b seq) ++ rest) := by
      rw [Mem.Holds, ← hd, r.length_data, dataptr, Nat.add_comm]
      rfl
    exact (Mem.holds_append.mp hall).1
  obtain ⟨hc, hcarries, -, hplen⟩ := parse_of_holds n hholds
    (show (Net.hdrlen (params node b seq)).1 ≤ r.buflen by omega) pf
  obtain ⟨hmode, hpid, hsender, hreceiver, haddr, hpending, hseq⟩ := tells_of_carries hn hcarries
  have h3 := hdrlen_pos (params node b seq)
  have hdata : r.bufptr + r.buflen ≤ 128 := h.data
  generalize hp : params node b seq = p at *
  generalize hparse : Net.parse n r.mem r.dataptr r.buflen pf = x at *
  have hred : r.buflen - x.2.payloadLen.toNat = (Net.hdrlen p).1 := by
    rw [hplen]
    omega
  unfold Framer.parse
  simp only [hparse]
  rw [if_neg (by omega), hred, Packetbuf.hdrreduce, if_neg (by omega)]
  simp only [hpid, ne_eq, not_true_eq_false, false_and, and_false, if_false, hsender, hseq, hpending]
  unfold Framer.taken learnt
  by_cases hcast : b.addrs .receiver = rimeaddrNull ∨ b.addrs .receiver = rimeaddrAllOnes
  · rw [if_pos hcast, Function.update_eq_self, if_neg fun hn => hreceiver.mp hn.2 hcast]
    rfl
  · rw [if_neg hcast, if_pos ⟨hmode, hreceiver.mpr hcast⟩, haddr fun hnull => hcast (.inl hnull)]
    rfl

theorem taken_sender (node : Rimeaddr n) (b : Packetbuf n) (seq : UInt8) (r : Packetbuf n) (k : ℕ) :
    (Framer.taken node b seq r k).addrs .sender = node := by
  simp [Framer.taken]

theorem taken_receiver (node : Rimeaddr n) (b : Packetbuf n) (seq : UInt8) (r : Packetbuf n) (k : ℕ) :
    (Framer.taken node b seq r k).addrs .receiver =
      learnt (b.addrs .receiver) (r.addrs .receiver) := by
  simp [Framer.taken]

theorem taken_packetId (node : Rimeaddr n) (b : Packetbuf n) (seq : UInt8) (r : Packetbuf n) (k : ℕ) :
    (Framer.taken node b seq r k).attrs .packetId = seq.toUInt16 := by
  simp [Framer.taken]

theorem taken_spec (node : Rimeaddr n) (b : Packetbuf n) (seq : UInt8) {r : Packetbuf n} (h : r.Ok)
    {k : ℕ} (hk : k ≤ r.buflen) :
    (Framer.taken node b seq r k).Ok ∧ (Framer.taken node b seq r k).data = r.data.drop k := by
  obtain ⟨-, hok, hdata⟩ := hdrreduce_spec h k hk
  exact ⟨⟨hok.hdr, hok.data, hok.tot⟩, hdata⟩

end Adler.Net
