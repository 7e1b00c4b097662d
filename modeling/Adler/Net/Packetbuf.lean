/-
  `packetbuf.c` and `queuebuf.c`: the buffer in which a packet grows headers on its way down the
  stack and loses them on its way up.

  The buffer is one array, the headers in front growing down from `hdrptr`, the data from
  `PACKETBUF_HDR_SIZE + bufptr` on. `Packet` is what it stands for: the bytes of the headers and those
  of the data. `step_refines`: every operation on the array does to these what it should, also
  `packetbuf_compact`, which moves the data within the array over themselves. `packet_run`: so does every
  run, in which packets are queued and loaded again.

  References to memory outside the buffer are not used by the stack of the platform and left out.
-/
import Adler.Lib.Memory
import Adler.Lib.Run
import Mathlib.Data.List.InsertIdx

namespace Adler.Net

open Lib

@[simp] abbrev packetbufSize : ℕ := 128

@[simp] abbrev hdrSize : ℕ := 48

/-- The attributes of a packet. -/
inductive Attr
  | channel | networkId | linkQuality | rssi | timestamp | radioTxpower | listenTime | transmitTime
  | maxMacTransmissions | macSeqno | macAck
  | reliable | packetId | packetType | rexmit | maxRexmit | numRexmit | pending
  | hops | ttl | epacketId | epacketType | ereliable
  deriving DecidableEq

/-- The addresses of a packet. -/
inductive AddrType
  | sender | receiver | esender | ereceiver
  deriving DecidableEq

/-- `rimeaddr_t` with `RIMEADDR_SIZE` bytes. -/
abbrev Rimeaddr (n : ℕ) := Fin n → UInt8

/-- `rimeaddr_null` -/
def rimeaddrNull {n : ℕ} : Rimeaddr n := fun _ => 0

structure Packetbuf (n : ℕ) where
  mem : Mem
  hdrptr : ℕ
  bufptr : ℕ
  buflen : ℕ
  attrs : Attr → UInt16
  addrs : AddrType → Rimeaddr n

namespace Packetbuf

variable {n : ℕ}

/-- `packetbuf_clear`, `packetbuf_attr_clear` -/
def clear (b : Packetbuf n) : Packetbuf n :=
  { b with
    buflen := 0, bufptr := 0, hdrptr := hdrSize
    attrs := fun _ => 0, addrs := fun _ => rimeaddrNull }

/-- `packetbuf_copyfrom` -/
def copyfrom (b : Packetbuf n) (src : List UInt8) : Packetbuf n :=
  let b := b.clear
  let l := if packetbufSize < src.length then packetbufSize else src.length
  { b with mem := Mem.copy b.mem hdrSize (src.take l), buflen := l }

/-- `packetbuf_compact` -/
def compact (b : Packetbuf n) : Packetbuf n :=
  if 0 < b.bufptr then
    { b with mem := Mem.shiftDown b.bufptr b.buflen hdrSize b.mem, bufptr := 0 }
  else b

/-- `packetbuf_hdrlen` -/
def hdrlen (b : Packetbuf n) : ℕ := hdrSize - b.hdrptr

/-- `packetbuf_totlen` -/
def totlen (b : Packetbuf n) : ℕ := b.hdrlen + b.buflen

/-- What `packetbuf_copyto` copies. -/
def copyto (b : Packetbuf n) : List UInt8 :=
  if packetbufSize < hdrSize - b.hdrptr + b.buflen then []
  else Mem.read b.mem b.hdrptr (hdrSize - b.hdrptr) ++ Mem.read b.mem (hdrSize + b.bufptr) b.buflen

/-- `packetbuf_hdralloc` -/
def hdralloc (b : Packetbuf n) (size : ℕ) : Option (Packetbuf n) :=
  if size ≤ b.hdrptr ∧ b.totlen + size ≤ packetbufSize then
    some { b with hdrptr := b.hdrptr - size }
  else none

/-- `packetbuf_hdr_remove` -/
def hdrRemove (b : Packetbuf n) (size : ℕ) : Packetbuf n := { b with hdrptr := b.hdrptr + size }

/-- `packetbuf_hdrreduce` -/
def hdrreduce (b : Packetbuf n) (size : ℕ) : Option (Packetbuf n) :=
  if b.buflen < size then none
  else some { b with bufptr := b.bufptr + size, buflen := b.buflen - size }

/-- `packetbuf_set_datalen` -/
def setDatalen (b : Packetbuf n) (len : ℕ) : Packetbuf n := { b with buflen := len }

/-- `packetbuf_dataptr` -/
def dataptr (b : Packetbuf n) : ℕ := b.bufptr + hdrSize

/-- `packetbuf_set_attr` -/
def setAttr (b : Packetbuf n) (type : Attr) (val : UInt16) : Packetbuf n :=
  { b with attrs := Function.update b.attrs type val }

/-- `packetbuf_set_addr` -/
def setAddr (b : Packetbuf n) (type : AddrType) (addr : Rimeaddr n) : Packetbuf n :=
  { b with addrs := Function.update b.addrs type addr }

/-- Bytes written over the buffer at `hdrptr`. -/
def write (b : Packetbuf n) (bytes : List UInt8) : Packetbuf n :=
  { b with mem := Mem.copy b.mem b.hdrptr bytes }

/-! ## The packet in the buffer -/

/-- The bytes of the headers. -/
def header (b : Packetbuf n) : List UInt8 := Mem.read b.mem b.hdrptr (hdrSize - b.hdrptr)

/-- The bytes of the data. -/
def data (b : Packetbuf n) : List UInt8 := Mem.read b.mem (hdrSize + b.bufptr) b.buflen

/-- The headers start within their part of the array and the data end within theirs, and the whole
is not longer than a packet. -/
structure Ok (b : Packetbuf n) : Prop where
  hdr : b.hdrptr ≤ hdrSize
  data : b.bufptr + b.buflen ≤ packetbufSize
  tot : b.totlen ≤ packetbufSize

@[simp] theorem length_header (b : Packetbuf n) : b.header.length = hdrSize - b.hdrptr :=
  Mem.length_read ..

@[simp] theorem length_data (b : Packetbuf n) : b.data.length = b.buflen := Mem.length_read ..

theorem copyto_eq {b : Packetbuf n} (h : b.Ok) : b.copyto = b.header ++ b.data :=
  if_neg (Nat.not_lt.mpr h.tot)

theorem copyfrom_data (b : Packetbuf n) (src : List UInt8) :
    (b.copyfrom src).data = src.take packetbufSize := by
  have hl : (if packetbufSize < src.length then packetbufSize else src.length) =
      (src.take packetbufSize).length := by
    rw [List.length_take]
    split <;> omega
  have htake : src.take (src.take packetbufSize).length = src.take packetbufSize := by
    rw [List.length_take]
    rcases Nat.le_total packetbufSize src.length with h | h
    · rw [Nat.min_eq_left h]
    · rw [Nat.min_eq_right h, List.take_length, List.take_of_length_le h]
  unfold copyfrom data
  dsimp only
  rw [hl, htake]
  exact Mem.read_copy_self ..

theorem copyfrom_ok (b : Packetbuf n) (src : List UInt8) : (b.copyfrom src).Ok := by
  have hl : (b.copyfrom src).buflen ≤ packetbufSize := by
    unfold copyfrom
    dsimp only
    split <;> omega
  refine ⟨Nat.le_refl _, ?_, ?_⟩
  · show 0 + _ ≤ packetbufSize
    rwa [Nat.zero_add]
  · show 48 - 48 + _ ≤ packetbufSize
    rwa [Nat.sub_self, Nat.zero_add]

theorem compact_header {b : Packetbuf n} (h : b.Ok) : b.compact.header = b.header := by
  unfold compact
  split
  · have hhdr : b.hdrptr ≤ 48 := h.hdr
    exact Mem.read_shiftDown_below _ _ _ _ (show b.hdrptr + (48 - b.hdrptr) ≤ 48 by omega)
  · rfl

theorem compact_data (b : Packetbuf n) : b.compact.data = b.data := by
  unfold compact
  split
  · show Mem.read _ (hdrSize + 0) _ = _
    rw [Nat.add_zero, Mem.read_shiftDown, data, Nat.add_comm b.bufptr]
  · rfl

theorem compact_ok {b : Packetbuf n} (h : b.Ok) : b.compact.Ok := by
  unfold compact
  split
  · refine ⟨h.hdr, ?_, h.tot⟩
    have := h.data
    show 0 + b.buflen ≤ packetbufSize
    omega
  · exact h

@[simp] theorem compact_addrs (b : Packetbuf n) : b.compact.addrs = b.addrs := by
  unfold compact
  split <;> rfl

/-- Room for a header. -/
def Room (b : Packetbuf n) (size : ℕ) : Prop :=
  b.header.length + size ≤ hdrSize ∧ b.header.length + b.data.length + size ≤ packetbufSize

/-- Room for two headers is room for the second when the first is there. -/
theorem Room.split {b b' : Packetbuf n} {bytes : List UInt8} {size : ℕ}
    (h : b.Room (bytes.length + size)) (hheader : b'.header = bytes ++ b.header)
    (hdata : b'.data = b.data) : b'.Room size := by
  obtain ⟨h1, h2⟩ := h
  unfold Room
  rw [hheader, hdata, List.length_append]
  omega

theorem hdralloc_eq {b : Packetbuf n} (h : b.Ok) (size : ℕ) :
    b.hdralloc size = none ∧ ¬ b.Room size ∨
      b.hdralloc size = some { b with hdrptr := b.hdrptr - size } ∧ b.Room size ∧ size ≤ b.hdrptr := by
  have hhdr := h.hdr
  unfold hdralloc Room
  rw [length_header, length_data]
  split
  · rename_i hroom
    exact .inr ⟨rfl, ⟨by omega, hroom.2⟩, hroom.1⟩
  · rename_i hroom
    refine .inl ⟨rfl, fun hr => hroom ⟨by omega, hr.2⟩⟩

theorem Room.mono {b : Packetbuf n} {size size' : ℕ} (h : b.Room size) (hle : size' ≤ size) :
    b.Room size' := by
  obtain ⟨h1, h2⟩ := h
  unfold Room
  omega

/-- A header that is put in front. -/
theorem hdralloc_write {b : Packetbuf n} (h : b.Ok) {bytes : List UInt8} (hr : b.Room bytes.length) :
    ∃ b', b.hdralloc bytes.length = some b' ∧ (b'.write bytes).Ok ∧
      (b'.write bytes).header = bytes ++ b.header ∧ (b'.write bytes).data = b.data ∧
      b'.hdrptr + bytes.length = b.hdrptr ∧ b'.bufptr = b.bufptr ∧ b'.buflen = b.buflen ∧
      b'.attrs = b.attrs ∧ b'.addrs = b.addrs := by
  rcases hdralloc_eq h bytes.length with ⟨-, hn⟩ | ⟨hsome, -, hle⟩
  · exact absurd hr hn
  have hhdr := h.hdr
  have htot := h.tot
  have hlen : b.data.length = b.buflen := length_data b
  refine ⟨_, hsome, ⟨?_, h.data, ?_⟩, ?_, ?_, Nat.sub_add_cancel hle, rfl, rfl, rfl, rfl⟩
  · show b.hdrptr - bytes.length ≤ hdrSize
    omega
  · have h2 := hr.2
    rw [length_header, length_data] at h2
    show hdrSize - (b.hdrptr - bytes.length) + b.buflen ≤ packetbufSize
    omega
  · show Mem.read _ (b.hdrptr - bytes.length) (hdrSize - (b.hdrptr - bytes.length)) = _
    rw [show hdrSize - (b.hdrptr - bytes.length) = bytes.length + (hdrSize - b.hdrptr) by omega,
      Mem.read_add, Nat.sub_add_cancel hle]
    congr 1
    · exact Mem.read_copy_self ..
    · exact Mem.read_copy_disjoint _ _ _ _ _ (.inr (by show b.hdrptr - _ + _ ≤ _; omega))
  · exact Mem.read_copy_disjoint _ _ _ _ _ (.inr (by show b.hdrptr - _ + _ ≤ _; omega))

theorem compact_bufptr (b : Packetbuf n) : b.compact.bufptr = 0 := by
  unfold compact
  split
  · rfl
  · omega

/-- Without a gap the headers and the data are one block. -/
theorem read_totlen {b : Packetbuf n} (h : b.Ok) (h0 : b.bufptr = 0) :
    Mem.read b.mem b.hdrptr b.totlen = b.header ++ b.data := by
  have hhdr : b.hdrptr ≤ 48 := h.hdr
  rw [totlen, Mem.read_add, header, data, h0, Nat.add_zero,
    show b.hdrptr + b.hdrlen = hdrSize from Nat.add_sub_cancel' hhdr]
  rfl

end Packetbuf

open Packetbuf

/-! ## The queue buffer -/

/-- `struct queuebuf_data` -/
structure Queuebuf (n : ℕ) where
  data : List UInt8
  attrs : Attr → UInt16
  addrs : AddrType → Rimeaddr n

variable {n : ℕ}

/-- What `queuebuf_new_from_packetbuf` stores. -/
def Packetbuf.toQueuebuf (b : Packetbuf n) : Queuebuf n := ⟨b.copyto, b.attrs, b.addrs⟩

/-- `queuebuf_to_packetbuf` -/
def Queuebuf.toPacketbuf (q : Queuebuf n) (b : Packetbuf n) : Packetbuf n :=
  { b.copyfrom q.data with attrs := q.attrs, addrs := q.addrs }

/-- What was stored comes back as data. -/
theorem toPacketbuf_spec {q : Queuebuf n} (h : q.data.length ≤ packetbufSize) (b : Packetbuf n) :
    (q.toPacketbuf b).Ok ∧ (q.toPacketbuf b).header = [] ∧ (q.toPacketbuf b).data = q.data := by
  have hok := b.copyfrom_ok q.data
  refine ⟨⟨hok.hdr, hok.data, hok.tot⟩, rfl, ?_⟩
  have htake : q.data.take packetbufSize = q.data := List.take_of_length_le h
  exact (b.copyfrom_data q.data).trans htake

theorem toQueuebuf_data {b : Packetbuf n} (h : b.Ok) :
    b.toQueuebuf.data = b.header ++ b.data ∧ b.toQueuebuf.data.length ≤ packetbufSize := by
  refine ⟨copyto_eq h, ?_⟩
  rw [show b.toQueuebuf.data = b.header ++ b.data from copyto_eq h, List.length_append,
    Packetbuf.length_header, length_data]
  exact h.tot

/-- In the queue the headers become data. -/
theorem requeue {b : Packetbuf n} (h : b.Ok) (b' : Packetbuf n) :
    (b.toQueuebuf.toPacketbuf b').Ok ∧ (b.toQueuebuf.toPacketbuf b').header = [] ∧
      (b.toQueuebuf.toPacketbuf b').data = b.header ++ b.data := by
  obtain ⟨hdata, hlen⟩ := toQueuebuf_data h
  exact hdata ▸ toPacketbuf_spec hlen b'

/-! ## Runs -/

/-- What the array stands for. -/
structure Packet where
  header : List UInt8
  data : List UInt8
  deriving DecidableEq

def Packetbuf.packet (b : Packetbuf n) : Packet := ⟨b.header, b.data⟩

inductive BufOp
  | copyfrom (src : List UInt8)
  /-- `packetbuf_hdralloc`, and the bytes written there -/
  | header (bytes : List UInt8)
  | hdrRemove (size : ℕ)
  | hdrreduce (size : ℕ)
  | compact

/-- An operation on the array, and whether it could be done. -/
def Packetbuf.step (b : Packetbuf n) : BufOp → Bool × Packetbuf n
  | .copyfrom src => (true, b.copyfrom src)
  | .header bytes =>
    match b.hdralloc bytes.length with
    | some b' => (true, b'.write bytes)
    | none => (false, b)
  | .hdrRemove size => (true, b.hdrRemove size)
  | .hdrreduce size =>
    match b.hdrreduce size with
    | some b' => (true, b')
    | none => (false, b)
  | .compact => (true, b.compact)

/-- The operation on what the array stands for. -/
def Packet.step (p : Packet) : BufOp → Bool × Packet
  | .copyfrom src => (true, ⟨[], src.take packetbufSize⟩)
  | .header bytes =>
    if p.header.length + bytes.length ≤ hdrSize ∧
        p.header.length + p.data.length + bytes.length ≤ packetbufSize then
      (true, ⟨bytes ++ p.header, p.data⟩)
    else (false, p)
  | .hdrRemove size => (true, ⟨p.header.drop size, p.data⟩)
  | .hdrreduce size => if p.data.length < size then (false, p) else (true, ⟨p.header, p.data.drop size⟩)
  | .compact => (true, p)

/-- Callers of `packetbuf_hdr_remove` take away no more than they have put in front. -/
def Packet.Allows (p : Packet) : BufOp → Prop
  | .hdrRemove size => size ≤ p.header.length
  | _ => True

/-- Each operation does to the bytes what it should. -/
theorem step_refines {b : Packetbuf n} (h : b.Ok) (op : BufOp) (hop : b.packet.Allows op) :
    (b.step op).2.Ok ∧ (b.step op).2.packet = (b.packet.step op).2 ∧
      (b.step op).1 = (b.packet.step op).1 := by
  have hhdr : b.hdrptr ≤ 48 := h.hdr
  cases op with
  | copyfrom src =>
    exact ⟨b.copyfrom_ok src, congrArg (Packet.mk []) (b.copyfrom_data src), rfl⟩
  | header bytes =>
    by_cases hr : b.Room bytes.length
    · obtain ⟨b', hsome, hok, hheader, hdata, -⟩ := hdralloc_write h hr
      have hstep : b.step (.header bytes) = (true, b'.write bytes) := by
        simp only [Packetbuf.step, hsome]
      have habs : b.packet.step (.header bytes) = (true, ⟨bytes ++ b.header, b.data⟩) := if_pos hr
      rw [hstep, habs]
      exact ⟨hok, by rw [Packetbuf.packet, hheader, hdata], rfl⟩
    · rcases hdralloc_eq h bytes.length with ⟨hnone, -⟩ | ⟨-, hroom, -⟩
      · have hstep : b.step (.header bytes) = (false, b) := by
          simp only [Packetbuf.step, hnone]
        have habs : b.packet.step (.header bytes) = (false, b.packet) := if_neg hr
        rw [hstep, habs]
        exact ⟨h, rfl, rfl⟩
      · exact absurd hroom hr
  | hdrRemove size =>
    have hle : size ≤ 48 - b.hdrptr := by simpa [Packet.Allows, Packetbuf.packet] using hop
    have htot : 48 - b.hdrptr + b.buflen ≤ 128 := h.tot
    refine ⟨⟨show b.hdrptr + size ≤ 48 by omega, h.data,
      show 48 - (b.hdrptr + size) + b.buflen ≤ 128 by omega⟩, congrArg (Packet.mk · b.data) ?_, rfl⟩
    show Mem.read b.mem (b.hdrptr + size) (48 - (b.hdrptr + size)) =
      (Mem.read b.mem b.hdrptr (48 - b.hdrptr)).drop size
    rw [show 48 - b.hdrptr = size + (48 - (b.hdrptr + size)) by omega, Mem.read_add]
    exact (List.drop_left' (Mem.length_read ..)).symm
  | hdrreduce size =>
    have hlen : b.packet.data.length = b.buflen := b.length_data
    by_cases hlt : b.buflen < size
    · have hstep : b.step (.hdrreduce size) = (false, b) := by
        simp only [Packetbuf.step, hdrreduce, if_pos hlt]
      have habs : b.packet.step (.hdrreduce size) = (false, b.packet) := if_pos (hlen ▸ hlt)
      rw [hstep, habs]
      exact ⟨h, rfl, rfl⟩
    · have hstep : b.step (.hdrreduce size) =
          (true, { b with bufptr := b.bufptr + size, buflen := b.buflen - size }) := by
        simp only [Packetbuf.step, hdrreduce, if_neg hlt]
      have habs : b.packet.step (.hdrreduce size) = (true, ⟨b.header, b.data.drop size⟩) :=
        if_neg (hlen ▸ hlt)
      have hdata := h.data
      have htot : 48 - b.hdrptr + b.buflen ≤ 128 := h.tot
      rw [hstep, habs]
      refine ⟨⟨h.hdr, show b.bufptr + size + (b.buflen - size) ≤ _ by omega,
        show 48 - b.hdrptr + (b.buflen - size) ≤ 128 by omega⟩, congrArg (Packet.mk b.header) ?_, rfl⟩
      show Mem.read b.mem (48 + (b.bufptr + size)) (b.buflen - size) =
        (Mem.read b.mem (48 + b.bufptr) b.buflen).drop size
      rw [show b.buflen = size + (b.buflen - size) by omega, Mem.read_add, ← Nat.add_assoc,
        List.drop_left' (Mem.length_read ..), Nat.add_sub_cancel_left]
  | compact =>
    refine ⟨compact_ok h, ?_, rfl⟩
    rw [Packetbuf.packet, Packetbuf.step, compact_header h, compact_data]
    rfl

theorem hdrRemove_spec {b : Packetbuf n} (h : b.Ok) (size : ℕ) (hs : size ≤ b.header.length) :
    (b.hdrRemove size).Ok ∧ (b.hdrRemove size).header = b.header.drop size := by
  obtain ⟨hok, hpacket, -⟩ := step_refines h (.hdrRemove size) hs
  exact ⟨hok, congrArg Packet.header hpacket⟩

theorem hdrreduce_spec {b : Packetbuf n} (h : b.Ok) (size : ℕ) (hs : size ≤ b.buflen) :
    b.hdrreduce size = some { b with bufptr := b.bufptr + size, buflen := b.buflen - size } ∧
      ({ b with bufptr := b.bufptr + size, buflen := b.buflen - size } : Packetbuf n).Ok ∧
      ({ b with bufptr := b.bufptr + size, buflen := b.buflen - size } : Packetbuf n).data =
        b.data.drop size := by
  have hsome : b.hdrreduce size =
      some { b with bufptr := b.bufptr + size, buflen := b.buflen - size } :=
    if_neg (Nat.not_lt.mpr hs)
  obtain ⟨hok, hpacket, -⟩ := step_refines h (.hdrreduce size) trivial
  have hstep : b.step (.hdrreduce size) =
      (true, { b with bufptr := b.bufptr + size, buflen := b.buflen - size }) := by
    simp only [Packetbuf.step, hsome]
  have habs : b.packet.step (.hdrreduce size) = (true, ⟨b.header, b.data.drop size⟩) :=
    if_neg (by rw [show b.packet.data.length = b.buflen from b.length_data]; omega)
  rw [hstep] at hok hpacket
  rw [habs] at hpacket
  exact ⟨hsome, hok, congrArg Packet.data hpacket⟩

/-! ## The buffer and the queue -/

/-- The buffer, and the queue buffers that are in use, the oldest first. -/
structure Buffers (n : ℕ) where
  buf : Packetbuf n
  queued : List (Queuebuf n)

/-- The packet in the buffer, and the bytes of those in the queue. -/
structure Packets where
  packet : Packet
  queued : List (List UInt8)
  deriving DecidableEq

def Buffers.packets (s : Buffers n) : Packets := ⟨s.buf.packet, s.queued.map (·.data)⟩

inductive QueueOp
  | buf (op : BufOp)
  /-- `queuebuf_new_from_packetbuf`, with a free block in its pools or without -/
  | queue (block : Bool)
  /-- `queuebuf_to_packetbuf` -/
  | load (i : ℕ)
  /-- `queuebuf_free` -/
  | free (i : ℕ)

def Buffers.step (s : Buffers n) : QueueOp → Bool × Buffers n
  | .buf op => ((s.buf.step op).1, { s with buf := (s.buf.step op).2 })
  | .queue block =>
    (block, { s with queued := if block then s.queued ++ [s.buf.toQueuebuf] else s.queued })
  | .load i =>
    match s.queued[i]? with
    | some q => (true, { s with buf := q.toPacketbuf s.buf })
    | none => (false, s)
  | .free i => (true, { s with queued := s.queued.eraseIdx i })

def Packets.step (p : Packets) : QueueOp → Bool × Packets
  | .buf op => ((p.packet.step op).1, { p with packet := (p.packet.step op).2 })
  | .queue block =>
    (block, { p with
      queued := if block then p.queued ++ [p.packet.header ++ p.packet.data] else p.queued })
  | .load i =>
    match p.queued[i]? with
    | some bytes => (true, { p with packet := ⟨[], bytes⟩ })
    | none => (false, p)
  | .free i => (true, { p with queued := p.queued.eraseIdx i })

def Packets.Allows (p : Packets) : QueueOp → Prop
  | .buf op => p.packet.Allows op
  | _ => True

structure Buffers.Ok (s : Buffers n) : Prop where
  buf : s.buf.Ok
  queued : ∀ q ∈ s.queued, q.data.length ≤ packetbufSize

/-- Each operation on the buffer and the queue does to the bytes what it should. -/
theorem queueStep_refines {s : Buffers n} (h : s.Ok) (op : QueueOp) (hop : s.packets.Allows op) :
    (s.step op).2.Ok ∧ (s.step op).2.packets = (s.packets.step op).2 ∧
      (s.step op).1 = (s.packets.step op).1 := by
  cases op with
  | buf op =>
    obtain ⟨hok, hpacket, hres⟩ := Net.step_refines h.buf op hop
    exact ⟨⟨hok, h.queued⟩, congrArg (Packets.mk · _) hpacket, hres⟩
  | queue block =>
    cases block with
    | false => exact ⟨h, rfl, rfl⟩
    | true =>
      obtain ⟨hdata, hlen⟩ := toQueuebuf_data h.buf
      refine ⟨⟨h.buf, fun q hq => ?_⟩, congrArg (Packets.mk s.buf.packet) ?_, rfl⟩
      · rcases List.mem_append.mp hq with hq | hq
        · exact h.queued q hq
        · rwa [List.mem_singleton.mp hq]
      · show (s.queued ++ [s.buf.toQueuebuf]).map (·.data) = _
        rw [List.map_append, List.map_singleton, hdata]
        rfl
  | load i =>
    have hget : s.packets.queued[i]? = s.queued[i]?.map (·.data) := List.getElem?_map ..
    cases hq : s.queued[i]? with
    | none =>
      rw [hq] at hget
      have hstep : s.step (.load i) = (false, s) := by simp only [Buffers.step, hq]
      have habs : s.packets.step (.load i) = (false, s.packets) := by
        simp only [Packets.step, hget, Option.map_none]
      rw [hstep, habs]
      exact ⟨h, rfl, rfl⟩
    | some q =>
      rw [hq] at hget
      obtain ⟨hok, hheader, hdata⟩ := toPacketbuf_spec (h.queued q (List.mem_of_getElem? hq)) s.buf
      have hstep : s.step (.load i) = (true, { s with buf := q.toPacketbuf s.buf }) := by
        simp only [Buffers.step, hq]
      have habs : s.packets.step (.load i) = (true, { s.packets with packet := ⟨[], q.data⟩ }) := by
        simp only [Packets.step, hget, Option.map_some]
      rw [hstep, habs]
      refine ⟨⟨hok, h.queued⟩, congrArg (Packets.mk · _) ?_, rfl⟩
      rw [Packetbuf.packet, hheader, hdata]
  | free i =>
    refine ⟨⟨h.buf, fun q hq => h.queued q (List.mem_of_mem_eraseIdx hq)⟩,
      congrArg (Packets.mk s.buf.packet) ?_, rfl⟩
    exact (List.eraseIdx_map ..).symm

/-- A run, with what the operations returned. -/
def Buffers.run (s : Buffers n) : List QueueOp → List Bool × Buffers n
  | [] => ([], s)
  | op :: ops => (((s.step op).1 :: ((s.step op).2.run ops).1), ((s.step op).2.run ops).2)

def Packets.run (p : Packets) : List QueueOp → List Bool × Packets
  | [] => ([], p)
  | op :: ops => (((p.step op).1 :: ((p.step op).2.run ops).1), ((p.step op).2.run ops).2)

/-- All operations of the run are allowed when their turn comes. -/
def Packets.AllowsAll (p : Packets) : List QueueOp → Prop
  | [] => True
  | op :: ops => p.Allows op ∧ (p.step op).2.AllowsAll ops

instance (p : Packets) (op : QueueOp) : Decidable (p.Allows op) :=
  match op with
  | .buf (.hdrRemove size) => inferInstanceAs (Decidable (size ≤ p.packet.header.length))
  | .buf (.copyfrom _) | .buf (.header _) | .buf (.hdrreduce _) | .buf .compact => .isTrue trivial
  | .queue _ | .load _ | .free _ => .isTrue trivial

instance Packets.decAllowsAll : (p : Packets) → (ops : List QueueOp) → Decidable (p.AllowsAll ops)
  | _, [] => .isTrue trivial
  | p, op :: ops =>
    have := decAllowsAll (p.step op).2 ops
    inferInstanceAs (Decidable (p.Allows op ∧ (p.step op).2.AllowsAll ops))

/-- Over any run the array stands for what the operations would have made of the bytes, they succeed
when there is room, and what is sent are the headers and the data. -/
theorem packet_run {s : Buffers n} (h : s.Ok) {ops : List QueueOp} (hops : s.packets.AllowsAll ops) :
    (s.run ops).2.packets = (s.packets.run ops).2 ∧ (s.run ops).1 = (s.packets.run ops).1 ∧
      (s.run ops).2.buf.copyto =
        (s.packets.run ops).2.packet.header ++ (s.packets.run ops).2.packet.data := by
  suffices hall : (s.run ops).2.Ok ∧ (s.run ops).2.packets = (s.packets.run ops).2 ∧
      (s.run ops).1 = (s.packets.run ops).1 by
    obtain ⟨hok, hpackets, hres⟩ := hall
    refine ⟨hpackets, hres, ?_⟩
    rw [copyto_eq hok.buf, ← hpackets]
    rfl
  induction ops generalizing s with
  | nil => exact ⟨h, rfl, rfl⟩
  | cons op ops ih =>
    obtain ⟨hok, hpackets, hres⟩ := queueStep_refines h op hops.1
    obtain ⟨hok', hpackets', hres'⟩ := ih hok (hpackets ▸ hops.2)
    refine ⟨hok', ?_, ?_⟩
    · rw [Buffers.run, Packets.run, hpackets', hpackets]
    · rw [Buffers.run, Packets.run, hres, hres', hpackets]

/-- A packet on its way down that waits in the queue while another comes in and goes up. -/
def downAndUp : List QueueOp :=
  [.buf (.copyfrom [1, 2, 3]), .buf (.header [9, 9]), .buf .compact, .queue true,
    .buf (.copyfrom [7, 7, 7, 5]), .buf (.hdrreduce 3), .queue false, .load 0, .buf (.header [8]),
    .buf (.hdrRemove 1), .free 0, .buf (.hdrreduce 2), .buf (.hdrreduce 7), .load 0, .buf .compact]

theorem packet_run_down_and_up :
    (((⟨⟨fun _ => 0, 48, 0, 0, fun _ => 0, fun _ => rimeaddrNull⟩, []⟩ :
      Buffers 2).run downAndUp).2.packets = ⟨⟨[], [1, 2, 3]⟩, []⟩) ∧
    (((⟨⟨fun _ => 0, 48, 0, 0, fun _ => 0, fun _ => rimeaddrNull⟩, []⟩ :
      Buffers 2).run downAndUp).1 =
      [true, true, true, true, true, true, false, true, true, true, true, true, false, false, true]) := by
  obtain ⟨hpackets, hres, -⟩ := packet_run (n := 2)
    (s := ⟨⟨fun _ => 0, 48, 0, 0, fun _ => 0, fun _ => rimeaddrNull⟩, []⟩)
    ⟨⟨by decide, by decide, by decide⟩, fun _ h => absurd h List.not_mem_nil⟩
    (show Packets.AllowsAll _ downAndUp by decide)
  exact ⟨hpackets.trans (by decide), hres.trans (by decide)⟩

end Adler.Net
