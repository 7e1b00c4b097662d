/-
  The Deluge messages as `deluge_rx.h` and `deluge_tx.h` lay them out, the packet buffer they
  arrive in, and the CRC of `core/lib/crc16.c`.

  A message is read in place: `command_dispatcher` casts the packet buffer to the message struct,
  so a field is a byte of the buffer at a fixed offset whether or not the message is that long.
  `Packetbuf.data` therefore goes on behind `len` with whatever an earlier packet left there.

  Offsets are those of the MSP430 (16-bit `int`, little endian, 2-byte alignment): the packet
  message has 71 bytes of fields and one pad byte, and the size tests use 72.
-/
import Adler.Lib.Memory

namespace Adler.Deluge

open Lib (Mem)

/-! ## Constants -/

/-- `S_PKT`, bytes in a packet. -/
@[simp] abbrev sPkt : Nat := 64

/-- `N_PKT`, packets in a page. -/
@[simp] abbrev nPkt : Nat := 4

/-- `S_PAGE`, bytes in a page. -/
@[simp] abbrev sPage : Nat := 256

/-- `T_HIGH`, the upper bound of the round time in seconds. -/
@[simp] abbrev tHigh : Nat := 64

/-- `CONST_K`, the bound on advertisements per round. -/
@[simp] abbrev constK : Nat := 1

/-- `CLOCK_SECOND` of `platform/ez240`. -/
@[simp] abbrev clockSecond : Nat := 128

/-- `PAGE_COMPLETE`. -/
@[simp] abbrev pageComplete : Nat := 1

/-- `ALL_PACKETS`, `(1 << N_PKT) - 1`. -/
@[simp] abbrev allPackets : Nat := 15

/-- `PACKETBUF_SIZE`. -/
@[simp] abbrev packetbufSize : Nat := 128

@[simp] abbrev delugeCmdSummary : Nat := 1
@[simp] abbrev delugeCmdRequest : Nat := 2
@[simp] abbrev delugeCmdPacket : Nat := 3
@[simp] abbrev delugeCmdProfile : Nat := 4

/-- `sizeof(struct deluge_msg_summary)`. -/
@[simp] abbrev sizeofSummary : Nat := 4

/-- `sizeof(struct deluge_msg_request)`. -/
@[simp] abbrev sizeofRequest : Nat := 5

/-- `sizeof(struct deluge_msg_packet)`: 71 bytes of fields, padded to an even size. -/
@[simp] abbrev sizeofPacket : Nat := 72

/-- `sizeof(struct deluge_msg_profile)`, without the flexible `version_vector`. -/
@[simp] abbrev sizeofProfile : Nat := 4

theorem testBit_allPackets : ∀ k, k < nPkt → allPackets.testBit k = true := by decide

/-! ## CRC -/

/-- `crc16_add`. -/
def crc16Add (b : UInt8) (acc : UInt16) : UInt16 :=
  let acc := acc ^^^ b.toUInt16
  let acc := (acc >>> 8) ||| (acc <<< 8)
  let acc := acc ^^^ ((acc &&& 0xff00) <<< 4)
  let acc := acc ^^^ ((acc >>> 8) >>> 4)
  let acc := acc ^^^ ((acc &&& 0xff00) >>> 5)
  acc

/-- `crc16_data`. -/
def crc16Data (data : List UInt8) (acc : UInt16) : UInt16 :=
  data.foldl (fun acc b => crc16Add b acc) acc

/-! ## The packet buffer -/

/-- The received packet: `packetbuf_dataptr()` and `packetbuf_datalen()`. -/
structure Packetbuf where
  data : Mem
  len : Nat

namespace Packetbuf

/-- The byte at offset `i`, as the integer C promotes it to. -/
def byte (b : Packetbuf) (i : Nat) : Nat := (b.data i).toNat

/-- A buffer holding the message `bytes`, in front of what was left in it before. -/
def ofBytes (bytes : List UInt8) (stale : Mem) : Packetbuf :=
  ⟨Mem.copy stale 0 bytes, bytes.length⟩

theorem byte_lt (b : Packetbuf) (i : Nat) : b.byte i < 256 := UInt8.toNat_lt _

theorem byte_ofBytes (bytes : List UInt8) (stale : Mem) {i : Nat} (h : i < bytes.length) :
    (ofBytes bytes stale).byte i = bytes[i].toNat := by
  simp [byte, ofBytes, Mem.copy, h]

@[simp] theorem len_ofBytes (bytes : List UInt8) (stale : Mem) :
    (ofBytes bytes stale).len = bytes.length := rfl

end Packetbuf

/-! ## The messages

  Each has the fields of its struct after `cmd`, the reading of it from a packet buffer
  (`ofBuf`) and the bytes a sender copies into its packet buffer (`bytes`). -/

/-- `struct deluge_msg_summary`. -/
structure DelugeMsgSummary where
  version : Nat
  highestAvailable : Nat
  objectId : Nat
deriving DecidableEq

/-- `struct deluge_msg_request`. -/
structure DelugeMsgRequest where
  version : Nat
  pagenum : Nat
  requestSet : Nat
  objectId : Nat
deriving DecidableEq

/-- `struct deluge_msg_packet`. -/
structure DelugeMsgPacket where
  version : Nat
  pagenum : Nat
  packetnum : Nat
  crc : UInt16
  objectId : Nat
  payload : List UInt8
deriving DecidableEq

/-- `struct deluge_msg_profile`; `versionVector` is whatever stands behind the header. -/
structure DelugeMsgProfile where
  version : Nat
  npages : Nat
  objectId : Nat
  versionVector : Nat → Nat

namespace DelugeMsgSummary

def ofBuf (b : Packetbuf) : DelugeMsgSummary := ⟨b.byte 1, b.byte 2, b.byte 3⟩

def bytes (m : DelugeMsgSummary) : List UInt8 :=
  [.ofNat delugeCmdSummary, .ofNat m.version, .ofNat m.highestAvailable, .ofNat m.objectId]

end DelugeMsgSummary

namespace DelugeMsgRequest

def ofBuf (b : Packetbuf) : DelugeMsgRequest := ⟨b.byte 1, b.byte 2, b.byte 3, b.byte 4⟩

def bytes (m : DelugeMsgRequest) : List UInt8 :=
  [.ofNat delugeCmdRequest, .ofNat m.version, .ofNat m.pagenum, .ofNat m.requestSet,
    .ofNat m.objectId]

end DelugeMsgRequest

namespace DelugeMsgPacket

def ofBuf (b : Packetbuf) : DelugeMsgPacket :=
  ⟨b.byte 1, b.byte 2, b.byte 3, .ofNat (b.byte 4 + 256 * b.byte 5), b.byte 6,
    Mem.read b.data 7 sPkt⟩

/-- The last byte is the pad byte of the struct; nothing reads it. -/
def bytes (m : DelugeMsgPacket) : List UInt8 :=
  [.ofNat delugeCmdPacket, .ofNat m.version, .ofNat m.pagenum, .ofNat m.packetnum,
    .ofNat m.crc.toNat, .ofNat (m.crc.toNat / 256), .ofNat m.objectId] ++ m.payload ++ [0]

/-- The CRC field matches the payload. -/
def CrcOk (m : DelugeMsgPacket) : Prop := m.crc = crc16Data m.payload 0

instance (m : DelugeMsgPacket) : Decidable m.CrcOk := inferInstanceAs (Decidable (_ = _))

end DelugeMsgPacket

namespace DelugeMsgProfile

def ofBuf (b : Packetbuf) : DelugeMsgProfile :=
  ⟨b.byte 1, b.byte 2, b.byte 3, fun i => b.byte (sizeofProfile + i)⟩

/-- The header and the `npages` version bytes behind it. -/
def bytes (m : DelugeMsgProfile) : List UInt8 :=
  [.ofNat delugeCmdProfile, .ofNat m.version, .ofNat m.npages, .ofNat m.objectId] ++
    (List.range m.npages).map fun i => .ofNat (m.versionVector i)

end DelugeMsgProfile

/-! ## Round trips -/

section

variable (stale : Mem)

theorem DelugeMsgSummary.ofBuf_bytes (m : DelugeMsgSummary) :
    ofBuf (.ofBytes m.bytes stale) =
      ⟨m.version % 256, m.highestAvailable % 256, m.objectId % 256⟩ := by
  simp [ofBuf, bytes, Packetbuf.byte_ofBytes]

theorem DelugeMsgRequest.ofBuf_bytes (m : DelugeMsgRequest) :
    ofBuf (.ofBytes m.bytes stale) =
      ⟨m.version % 256, m.pagenum % 256, m.requestSet % 256, m.objectId % 256⟩ := by
  simp [ofBuf, bytes, Packetbuf.byte_ofBytes]

theorem DelugeMsgPacket.length_bytes (m : DelugeMsgPacket) (h : m.payload.length = sPkt) :
    m.bytes.length = 72 := by
  simp [bytes, h]

/-- The two CRC bytes put together again. -/
theorem crc_bytes (c : UInt16) :
    UInt16.ofNat (c.toNat % 256 + 256 * (c.toNat / 256 % 256)) = c := by
  have hc := UInt16.toNat_lt c
  have h : c.toNat % 256 + 256 * (c.toNat / 256 % 256) = c.toNat := by omega
  rw [h, UInt16.ofNat_toNat]

theorem DelugeMsgPacket.ofBuf_bytes (m : DelugeMsgPacket) (h : m.payload.length = sPkt) :
    ofBuf (.ofBytes m.bytes stale) =
      ⟨m.version % 256, m.pagenum % 256, m.packetnum % 256, m.crc, m.objectId % 256,
        m.payload⟩ := by
  have hlen := m.length_bytes h
  have hread : Mem.read (Packetbuf.ofBytes m.bytes stale).data 7 sPkt = m.payload := by
    apply List.ext_getElem (by simp [h])
    intro i h1 h2
    have hi : 7 + i < m.bytes.length := by
      simp only [sPkt] at h
      omega
    have hget : m.bytes[7 + i] = m.payload[i] := by
      simp only [bytes, List.getElem_append, List.length_append, List.length_cons, List.length_nil]
      rw [dif_pos (by omega), dif_neg (by omega)]
      congr 1
      omega
    simp [Mem.read, Packetbuf.ofBytes, Mem.copy, hi, hget]
  have hcrc := crc_bytes m.crc
  rw [ofBuf, hread, Packetbuf.byte_ofBytes _ _ (by omega), Packetbuf.byte_ofBytes _ _ (by omega),
    Packetbuf.byte_ofBytes _ _ (by omega), Packetbuf.byte_ofBytes _ _ (by omega),
    Packetbuf.byte_ofBytes _ _ (by omega), Packetbuf.byte_ofBytes _ _ (by omega)]
  simp only [bytes, List.cons_append, List.getElem_cons_succ, List.getElem_cons_zero,
    UInt8.toNat_ofNat']
  simpa using hcrc

theorem DelugeMsgProfile.length_bytes (m : DelugeMsgProfile) :
    m.bytes.length = 4 + m.npages := by
  simp only [bytes, List.length_append, List.length_cons, List.length_nil, List.length_map,
    List.length_range]

/-- The header of a sent profile, and those of its version bytes that the packet buffer of the
    sender holds. -/
theorem DelugeMsgProfile.ofBuf_bytes (m : DelugeMsgProfile) (n : Nat) (hn : 4 ≤ n) :
    (ofBuf (.ofBytes (m.bytes.take n) stale)).version = m.version % 256 ∧
      (ofBuf (.ofBytes (m.bytes.take n) stale)).npages = m.npages % 256 ∧
      ∀ i, i < m.npages → 4 + i < n →
        (ofBuf (.ofBytes (m.bytes.take n) stale)).versionVector i = m.versionVector i % 256 := by
  have hlen := m.length_bytes
  have hl : (m.bytes.take n).length = min n (4 + m.npages) := by
    rw [List.length_take, hlen]
  refine ⟨?_, ?_, ?_⟩
  · simp only [ofBuf]
    rw [Packetbuf.byte_ofBytes _ _ (by omega), List.getElem_take]
    simp [bytes]
  · simp only [ofBuf]
    rw [Packetbuf.byte_ofBytes _ _ (by omega), List.getElem_take]
    simp [bytes]
  · intro i hi hin
    simp only [ofBuf, sizeofProfile]
    rw [Packetbuf.byte_ofBytes _ _ (by omega), List.getElem_take]
    simp only [bytes]
    rw [List.getElem_append_right (by simp)]
    simp

end

end Adler.Deluge
