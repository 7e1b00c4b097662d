/-
  `frame802154.c`: the MAC header of a frame.

  * `create_eq`: `frame802154_create` lays down the header of `header` and nothing else.
  * `parse_create`: `frame802154_parse` of anything that starts with such a header finds the fields it
    was made from, and the payload behind it.
  * `header_parse_iff`: the header is made again, byte for byte, from what was parsed exactly when the
    reserved bits are clear and the compression bit is the one `field_len` would have set.

  `rimeaddr_null` has `rimeaddrSize` bytes, 2 or 8 by configuration.
-/
import Adler.Lib.Memory
import Mathlib.Tactic.FinCases

namespace Adler.Net

open Lib

@[simp] abbrev shortaddrmode : UInt8 := 2

@[simp] abbrev longaddrmode : UInt8 := 3

/-- `frame802154_fcf_t` -/
structure Fcf where
  frameType : UInt8
  securityEnabled : UInt8
  framePending : UInt8
  ackRequired : UInt8
  panidCompression : UInt8
  destAddrMode : UInt8
  frameVersion : UInt8
  srcAddrMode : UInt8
  deriving DecidableEq

/-- `frame802154_t`; the payload is where it starts in the data. -/
structure Frame where
  fcf : Fcf
  seq : UInt8
  destPid : UInt16
  destAddr : Mem
  srcPid : UInt16
  srcAddr : Mem
  payload : ℕ
  payloadLen : UInt8

/-- `field_length_t` -/
structure FieldLength where
  destPidLen : ℕ
  destAddrLen : ℕ
  srcPidLen : ℕ
  srcAddrLen : ℕ
  auxSecLen : ℕ

def addrLen (mode : UInt8) : ℕ :=
  if mode = shortaddrmode then 2 else if mode = longaddrmode then 8 else 0

/-- `field_len`, which also sets the compression bit. -/
def fieldLen (p : Frame) : Frame × FieldLength :=
  let destPidLen := if p.fcf.destAddrMode &&& 3 ≠ 0 then 2 else 0
  let srcPidLen := if p.fcf.srcAddrMode &&& 3 ≠ 0 then 2 else 0
  let compressed :=
    p.fcf.destAddrMode &&& 3 ≠ 0 ∧ p.fcf.srcAddrMode &&& 3 ≠ 0 ∧ p.srcPid = p.destPid
  let p := { p with fcf := { p.fcf with panidCompression := if compressed then 1 else 0 } }
  (p, { destPidLen := destPidLen
        destAddrLen := addrLen (p.fcf.destAddrMode &&& 3)
        srcPidLen := if compressed then 0 else srcPidLen
        srcAddrLen := addrLen (p.fcf.srcAddrMode &&& 3)
        auxSecLen := 0 })

def FieldLength.total (flen : FieldLength) : ℕ :=
  3 + flen.destPidLen + flen.destAddrLen + flen.srcPidLen + flen.srcAddrLen + flen.auxSecLen

/-- `frame802154_hdrlen`, and the frame with its compression bit set. -/
def hdrlen (p : Frame) : ℕ × Frame := ((fieldLen p).2.total, (fieldLen p).1)

/-! ## Creating -/

/-- The first byte of the frame control field. -/
def Fcf.byte0 (f : Fcf) : UInt8 :=
  let bit (v n : UInt8) : UInt8 := (v &&& 1) <<< n
  (f.frameType &&& 7) ||| bit f.securityEnabled 3 ||| bit f.framePending 4 ||| bit f.ackRequired 5 |||
    bit f.panidCompression 6

/-- The second byte of the frame control field. -/
def Fcf.byte1 (f : Fcf) : UInt8 :=
  let pair (v n : UInt8) : UInt8 := (v &&& 3) <<< n
  pair f.destAddrMode 2 ||| pair f.frameVersion 4 ||| pair f.srcAddrMode 6

/-- `tx_frame_buffer[pos++] = b` -/
def push (w : Mem × ℕ) (b : UInt8) : Mem × ℕ := (Function.update w.1 w.2 b, w.2 + 1)

/-- A PAN ID, the low byte first. -/
def pushPid (w : Mem × ℕ) (pid : UInt16) : Mem × ℕ := push (push w pid.toUInt8) (pid >>> 8).toUInt8

/-- `for(c = len; c > 0; c--) tx_frame_buffer[pos++] = addr[c - 1]` -/
def pushAddr (addr : Mem) : ℕ → Mem × ℕ → Mem × ℕ
  | 0, w => w
  | c + 1, w => pushAddr addr c (push w (addr c))

/-- `frame802154_create` into the memory from `buf` on: what it returns, the frame with its
compression bit set, and the memory. -/
def create (p : Frame) (m : Mem) (buf bufLen : ℕ) : ℕ × Frame × Mem :=
  let (p, flen) := fieldLen p
  if bufLen < flen.total then (0, p, m)
  else
    let w := push (push (push (m, buf) p.fcf.byte0) p.fcf.byte1) p.seq
    let w := if flen.destPidLen = 2 then pushPid w p.destPid else w
    let w := pushAddr p.destAddr flen.destAddrLen w
    let w := if flen.srcPidLen = 2 then pushPid w p.srcPid else w
    let w := pushAddr p.srcAddr flen.srcAddrLen w
    (w.2 - buf, p, w.1)

/-! ## Parsing -/

/-- The frame control field of its two bytes. -/
def Fcf.ofBytes (b0 b1 : UInt8) : Fcf where
  frameType := b0 &&& 7
  securityEnabled := (b0 >>> 3) &&& 1
  framePending := (b0 >>> 4) &&& 1
  ackRequired := (b0 >>> 5) &&& 1
  panidCompression := (b0 >>> 6) &&& 1
  destAddrMode := (b1 >>> 2) &&& 3
  frameVersion := (b1 >>> 4) &&& 3
  srcAddrMode := (b1 >>> 6) &&& 3

/-- `p[0] + (p[1] << 8)` -/
def pidAt (m : Mem) (p : ℕ) : UInt16 := (m p).toUInt16 + (m (p + 1)).toUInt16 <<< 8

/-- `rimeaddr_copy(addr, &rimeaddr_null)` -/
def nullAddr (rimeaddrSize : ℕ) (addr : Mem) : Mem :=
  Mem.copy addr 0 (List.replicate rimeaddrSize 0)

/-- An address of the frame at `p`, and how many bytes it takes. -/
def parseAddr (rimeaddrSize : ℕ) (m : Mem) (p : ℕ) (mode : UInt8) (addr : Mem) : Mem × ℕ :=
  if mode = shortaddrmode then
    (Function.update (Function.update (nullAddr rimeaddrSize addr) 0 (m (p + 1))) 1 (m p), 2)
  else if mode = longaddrmode then
    ((List.range 8).foldl (fun a c => Function.update a c (m (p + (7 - c)))) addr, 8)
  else (addr, 0)

/-- The destination of the frame; the second component is the position in the data. -/
def parseDest (rimeaddrSize : ℕ) (m : Mem) (fcf : Fcf) (s : Frame × ℕ) : Frame × ℕ :=
  let (pf, p) := s
  if fcf.destAddrMode ≠ 0 then
    let a := parseAddr rimeaddrSize m (p + 2) fcf.destAddrMode pf.destAddr
    ({ pf with destPid := pidAt m p, destAddr := a.1 }, p + 2 + a.2)
  else ({ pf with destAddr := nullAddr rimeaddrSize pf.destAddr, destPid := 0 }, p)

/-- The source of the frame. -/
def parseSrc (rimeaddrSize : ℕ) (m : Mem) (fcf : Fcf) (s : Frame × ℕ) : Frame × ℕ :=
  let (pf, p) := s
  if fcf.srcAddrMode ≠ 0 then
    let (pid, p) := if fcf.panidCompression = 0 then (pidAt m p, p + 2) else (pf.destPid, p)
    let a := parseAddr rimeaddrSize m p fcf.srcAddrMode pf.srcAddr
    ({ pf with srcPid := pid, srcAddr := a.1 }, p + a.2)
  else ({ pf with srcAddr := nullAddr rimeaddrSize pf.srcAddr, srcPid := 0 }, p)

/-- `frame802154_parse` of the `len` bytes from `data` on. -/
def parse (rimeaddrSize : ℕ) (m : Mem) (data len : ℕ) (pf : Frame) : ℕ × Frame :=
  if len < 3 then (0, pf)
  else
    let fcf := Fcf.ofBytes (m data) (m (data + 1))
    let pf := { pf with fcf := fcf, seq := m (data + 2) }
    let (pf, p) := parseSrc rimeaddrSize m fcf (parseDest rimeaddrSize m fcf (pf, data + 3))
    let c := p - data
    let pf := { pf with payloadLen := UInt8.ofInt ((len : ℤ) - c), payload := p }
    (if len < c then 0 else c, pf)

/-! ## The header -/

def pidBytes (pid : UInt16) : List UInt8 := [pid.toUInt8, (pid >>> 8).toUInt8]

/-- An address as it stands in the frame, its last byte first. -/
def addrBytes (addr : Mem) : ℕ → List UInt8
  | 0 => []
  | c + 1 => addr c :: addrBytes addr c

/-- A PAN ID and an address, when there are any. -/
def fieldBytes (pidLen : ℕ) (pid : UInt16) (addr : Mem) (len : ℕ) : List UInt8 :=
  (if pidLen = 2 then pidBytes pid else []) ++ addrBytes addr len

/-- The header of a frame. -/
def header (p : Frame) : List UInt8 :=
  let (p, flen) := fieldLen p
  [p.fcf.byte0, p.fcf.byte1, p.seq] ++ fieldBytes flen.destPidLen p.destPid p.destAddr flen.destAddrLen
    ++ fieldBytes flen.srcPidLen p.srcPid p.srcAddr flen.srcAddrLen

@[simp] theorem length_addrBytes (addr : Mem) (len : ℕ) : (addrBytes addr len).length = len := by
  induction len with
  | zero => rfl
  | succ c ih => rw [addrBytes, List.length_cons, ih]

/-- The address back from its bytes. -/
theorem holds_addrBytes {m : Mem} {p : ℕ} {addr : Mem} {len : ℕ} :
    m.Holds p (addrBytes addr len) ↔ ∀ i < len, addr i = m (p + (len - 1 - i)) := by
  induction len generalizing p with
  | zero => simp [addrBytes, Mem.holds_nil]
  | succ c ih =>
    rw [addrBytes, Mem.holds_cons, ih]
    constructor
    · rintro ⟨hhead, htail⟩ i hi
      rcases Nat.lt_succ_iff_lt_or_eq.mp hi with hi | rfl
      · rw [htail i hi, show p + 1 + (c - 1 - i) = p + (c + 1 - 1 - i) by omega]
      · rw [← hhead, show p + (i + 1 - 1 - i) = p by omega]
    · intro h
      refine ⟨?_, fun i hi => ?_⟩
      · rw [h c (Nat.lt_succ_self c), show p + (c + 1 - 1 - c) = p by omega]
      · rw [h i (Nat.lt_succ_of_lt hi), show p + 1 + (c - 1 - i) = p + (c + 1 - 1 - i) by omega]

theorem length_fieldBytes {pidLen : ℕ} (h : pidLen = 0 ∨ pidLen = 2) (pid : UInt16) (addr : Mem)
    (len : ℕ) : (fieldBytes pidLen pid addr len).length = pidLen + len := by
  rcases h with rfl | rfl <;> simp +arith [fieldBytes, pidBytes]

theorem destPidLen_cases (p : Frame) :
    (fieldLen p).2.destPidLen = 0 ∨ (fieldLen p).2.destPidLen = 2 := by
  simp only [fieldLen]
  split <;> simp

theorem srcPidLen_cases (p : Frame) :
    (fieldLen p).2.srcPidLen = 0 ∨ (fieldLen p).2.srcPidLen = 2 := by
  simp only [fieldLen]
  split
  · exact .inl rfl
  · split <;> simp

theorem length_header (p : Frame) : (header p).length = (hdrlen p).1 := by
  simp only [header, List.length_append, List.length_cons, List.length_nil,
    length_fieldBytes (destPidLen_cases p), length_fieldBytes (srcPidLen_cases p), hdrlen,
    FieldLength.total, show (fieldLen p).2.auxSecLen = 0 from rfl]
  omega

/-- Byte after byte is a copy. -/
theorem foldl_push (bytes : List UInt8) (w : Mem × ℕ) :
    bytes.foldl push w = (Mem.copy w.1 w.2 bytes, w.2 + bytes.length) := by
  induction bytes generalizing w with
  | nil => rw [Mem.copy_nil]; rfl
  | cons b bytes ih =>
    rw [List.foldl_cons, ih, Mem.copy_cons]
    simp only [push, List.length_cons, Nat.add_assoc, Nat.add_comm 1]

theorem pushAddr_eq (addr : Mem) (len : ℕ) (w : Mem × ℕ) :
    pushAddr addr len w = (addrBytes addr len).foldl push w := by
  induction len generalizing w with
  | zero => rfl
  | succ c ih => exact ih _

theorem push_field (pidLen : ℕ) (pid : UInt16) (addr : Mem) (len : ℕ) (w : Mem × ℕ) :
    pushAddr addr len (if pidLen = 2 then pushPid w pid else w) =
      (fieldBytes pidLen pid addr len).foldl push w := by
  rw [pushAddr_eq, fieldBytes, List.foldl_append]
  split <;> rfl

/-- `frame802154_create` copies the header into the buffer, or does nothing. -/
theorem create_eq (p : Frame) (m : Mem) (buf bufLen : ℕ) :
    create p m buf bufLen = if bufLen < (hdrlen p).1 then (0, (hdrlen p).2, m)
      else ((hdrlen p).1, (hdrlen p).2, Mem.copy m buf (header p)) := by
  have hlen : (header p).length = (fieldLen p).2.total := length_header p
  simp only [create, push_field]
  by_cases hlt : bufLen < (fieldLen p).2.total
  · rw [if_pos hlt, if_pos (show bufLen < (hdrlen p).1 from hlt)]
    rfl
  · rw [if_neg hlt, if_neg (show ¬ bufLen < (hdrlen p).1 from hlt)]
    have hw : push (push (push (m, buf) (fieldLen p).1.fcf.byte0) (fieldLen p).1.fcf.byte1)
        (fieldLen p).1.seq = [(fieldLen p).1.fcf.byte0, (fieldLen p).1.fcf.byte1,
          (fieldLen p).1.seq].foldl push (m, buf) := rfl
    rw [hw, ← List.foldl_append, ← List.foldl_append, foldl_push, ← List.append_assoc]
    simp only [header] at hlen ⊢
    rw [hlen, Nat.add_sub_cancel_left]
    rfl

/-! ## The frame control field -/

theorem forall_byte {P : UInt8 → Prop} (h : ∀ k : Fin 256, P (UInt8.ofNat k)) : ∀ b, P b := by
  intro b
  have hb := h ⟨b.toNat, b.toNat_lt⟩
  rwa [UInt8.ofNat_toNat] at hb

theorem and_seven (b : UInt8) : ∃ k : Fin 8, b &&& 7 = UInt8.ofNat k := by
  revert b
  exact forall_byte (by decide +kernel)

theorem and_three (b : UInt8) : ∃ k : Fin 4, b &&& 3 = UInt8.ofNat k := by
  revert b
  exact forall_byte (by decide +kernel)

theorem and_one (b : UInt8) : ∃ k : Fin 2, b &&& 1 = UInt8.ofNat k := by
  revert b
  exact forall_byte (by decide +kernel)

/-- What the two bytes have room for. -/
def Fcf.masked (f : Fcf) : Fcf where
  frameType := f.frameType &&& 7
  securityEnabled := f.securityEnabled &&& 1
  framePending := f.framePending &&& 1
  ackRequired := f.ackRequired &&& 1
  panidCompression := f.panidCompression &&& 1
  destAddrMode := f.destAddrMode &&& 3
  frameVersion := f.frameVersion &&& 3
  srcAddrMode := f.srcAddrMode &&& 3

theorem Fcf.ofBytes_bytes (f : Fcf) : Fcf.ofBytes f.byte0 f.byte1 = f.masked := by
  simp only [Fcf.ofBytes, Fcf.byte0, Fcf.byte1, Fcf.masked, Fcf.mk.injEq]
  obtain ⟨t, ht⟩ := and_seven f.frameType
  obtain ⟨s, hs⟩ := and_one f.securityEnabled
  obtain ⟨p, hp⟩ := and_one f.framePending
  obtain ⟨a, ha⟩ := and_one f.ackRequired
  obtain ⟨c, hc⟩ := and_one f.panidCompression
  obtain ⟨d, hd⟩ := and_three f.destAddrMode
  obtain ⟨v, hv⟩ := and_three f.frameVersion
  obtain ⟨o, ho⟩ := and_three f.srcAddrMode
  rw [ht, hs, hp, ha, hc, hd, hv, ho]
  clear ht hs hp ha hc hd hv ho
  have h0 : ∀ (t : Fin 8) (s p a c : Fin 2), 
      let b := UInt8.ofNat t ||| (UInt8.ofNat s <<< (3 : UInt8)) ||| (UInt8.ofNat p <<< (4 : UInt8)) |||
        (UInt8.ofNat a <<< (5 : UInt8)) ||| (UInt8.ofNat c <<< (6 : UInt8))
      b &&& 7 = UInt8.ofNat t ∧ b >>> 3 &&& 1 = UInt8.ofNat s ∧ b >>> 4 &&& 1 = UInt8.ofNat p ∧
        b >>> 5 &&& 1 = UInt8.ofNat a ∧ b >>> 6 &&& 1 = UInt8.ofNat c := by decide +kernel
  have h1 : ∀ d v o : Fin 4, 
      let b := (UInt8.ofNat d <<< (2 : UInt8)) ||| (UInt8.ofNat v <<< (4 : UInt8)) |||
        (UInt8.ofNat o <<< (6 : UInt8))
      b >>> 2 &&& 3 = UInt8.ofNat d ∧ b >>> 4 &&& 3 = UInt8.ofNat v ∧
        b >>> 6 &&& 3 = UInt8.ofNat o := by decide +kernel
  obtain ⟨e1, e2, e3, e4, e5⟩ := h0 t s p a c
  obtain ⟨e6, e7, e8⟩ := h1 d v o
  exact ⟨e1, e2, e3, e4, e5, e6, e7, e8⟩

/-- Only the reserved bits are lost. -/
theorem Fcf.bytes_ofBytes (b0 b1 : UInt8) :
    (Fcf.ofBytes b0 b1).byte0 = b0 &&& 0x7f ∧ (Fcf.ofBytes b0 b1).byte1 = b1 &&& 0xfc := by
  have h0 : ∀ b, (Fcf.ofBytes b 0).byte0 = b &&& 0x7f := forall_byte (by decide +kernel)
  have h1 : ∀ b, (Fcf.ofBytes 0 b).byte1 = b &&& 0xfc := forall_byte (by decide +kernel)
  exact ⟨h0 b0, h1 b1⟩

/-! ## Parsing a header -/

theorem pidAt_of_holds {m : Mem} {p : ℕ} {pid : UInt16} (h : m.Holds p (pidBytes pid)) :
    pidAt m p = pid := by
  obtain ⟨hlow, hhigh, -⟩ : m p = pid.toUInt8 ∧ m (p + 1) = (pid >>> 8).toUInt8 ∧ True := by
    simpa [pidBytes, Mem.holds_cons, Mem.holds_nil] using h
  have hlt := pid.toNat_lt
  apply UInt16.toNat_inj.mp
  simp only [pidAt, hlow, hhigh, UInt16.toNat_add, UInt16.toNat_shiftLeft, UInt8.toNat_toUInt16,
    UInt16.toNat_toUInt8, UInt16.toNat_shiftRight, Nat.shiftLeft_eq, Nat.shiftRight_eq_div_pow,
    UInt16.toNat_ofNat, Nat.reducePow, Nat.reduceMod]
  omega

theorem holds_pidAt (m : Mem) (p : ℕ) : m.Holds p (pidBytes (pidAt m p)) := by
  have hlow := (m p).toNat_lt
  have hhigh := (m (p + 1)).toNat_lt
  have hpid : (pidAt m p).toNat = (m p).toNat + (m (p + 1)).toNat * 256 := by
    simp only [pidAt, UInt16.toNat_add, UInt16.toNat_shiftLeft, UInt8.toNat_toUInt16,
      Nat.shiftLeft_eq, UInt16.toNat_ofNat, Nat.reducePow, Nat.reduceMod]
    omega
  have h0 : m p = (pidAt m p).toUInt8 := by
    apply UInt8.toNat_inj.mp
    rw [UInt16.toNat_toUInt8, hpid]
    omega
  have h1 : m (p + 1) = (pidAt m p >>> 8).toUInt8 := by
    apply UInt8.toNat_inj.mp
    simp only [UInt16.toNat_toUInt8, UInt16.toNat_shiftRight, hpid, UInt16.toNat_ofNat,
      Nat.shiftRight_eq_div_pow, Nat.reducePow, Nat.reduceMod]
    omega
  exact Mem.holds_cons.mpr ⟨h0, Mem.holds_cons.mpr ⟨h1, Mem.holds_nil ..⟩⟩

theorem parseAddr_len (rimeaddrSize : ℕ) (m : Mem) (p : ℕ) (mode : UInt8) (addr : Mem) :
    (parseAddr rimeaddrSize m p mode addr).2 = addrLen mode := by
  unfold parseAddr addrLen
  split
  · rfl
  · split <;> rfl

theorem parseAddr_apply (rimeaddrSize : ℕ) (m : Mem) (p : ℕ) (mode : UInt8) (addr : Mem) {i : ℕ}
    (hi : i < addrLen mode) :
    (parseAddr rimeaddrSize m p mode addr).1 i = m (p + (addrLen mode - 1 - i)) := by
  unfold addrLen at hi ⊢
  by_cases hshort : mode = shortaddrmode
  · rw [if_pos hshort] at hi ⊢
    rw [parseAddr, if_pos hshort]
    obtain rfl | rfl : i = 0 ∨ i = 1 := by omega
    · rfl
    · rfl
  · rw [if_neg hshort] at hi ⊢
    rw [parseAddr, if_neg hshort]
    by_cases hlong : mode = longaddrmode
    · rw [if_pos hlong] at hi ⊢
      rw [if_pos hlong, foldl_update (fun c _ => m (p + (7 - c))) _ addr List.nodup_range]
      simp only [List.mem_range, hi, if_true]
    · rw [if_neg hlong] at hi
      exact absurd hi (Nat.not_lt_zero i)

theorem nullAddr_apply {rimeaddrSize i : ℕ} (addr : Mem) (hi : i < rimeaddrSize) :
    nullAddr rimeaddrSize addr i = 0 := by
  rw [nullAddr, Mem.copy_of_mem _ _ _ (Nat.zero_le i) (by simpa using hi)]
  simp [List.getD_eq_getElem?_getD, hi]

/-- Addresses agree as far as the mode says, with zeros behind a short one. -/
structure SameAddr (rimeaddrSize : ℕ) (mode : UInt8) (addr addr' : Mem) : Prop where
  same : ∀ i < addrLen mode, addr' i = addr i
  null : mode = 0 ∨ mode = shortaddrmode → ∀ i, addrLen mode ≤ i → i < rimeaddrSize → addr' i = 0

theorem sameAddr_parseAddr {rimeaddrSize : ℕ} {m : Mem} {p : ℕ} {mode : UInt8} {addr : Mem}
    (addr' : Mem) (h0 : mode ≠ 0) (h : m.Holds p (addrBytes addr (addrLen mode))) :
    SameAddr rimeaddrSize mode addr (parseAddr rimeaddrSize m p mode addr').1 where
  same i hi := by rw [parseAddr_apply _ _ _ _ _ hi, holds_addrBytes.mp h i hi]
  null hmode i hlen hi := by
    obtain rfl : mode = shortaddrmode := hmode.resolve_left h0
    have h2 : 2 ≤ i := hlen
    rw [parseAddr, if_pos rfl]
    show Function.update (Function.update _ 0 _) 1 _ i = 0
    rw [Function.update_of_ne (by omega), Function.update_of_ne (by omega), nullAddr_apply _ hi]

theorem sameAddr_null (rimeaddrSize : ℕ) (addr addr' : Mem) :
    SameAddr rimeaddrSize 0 addr (nullAddr rimeaddrSize addr') where
  same i hi := absurd hi (Nat.not_lt_zero i)
  null _ _ _ hi := nullAddr_apply _ hi

theorem holds_fieldBytes {m : Mem} {p : ℕ} {pid : UInt16} {addr : Mem} {len : ℕ} :
    m.Holds p (fieldBytes 2 pid addr len) ↔
      pidAt m p = pid ∧ m.Holds (p + 2) (addrBytes addr len) := by
  rw [fieldBytes, if_pos rfl, Mem.holds_append]
  constructor
  · exact fun h => ⟨pidAt_of_holds h.1, h.2⟩
  · rintro ⟨rfl, h⟩
    exact ⟨holds_pidAt m p, h⟩

/-- How long the PAN ID of an address with this mode is. -/
def pidLen (mode : UInt8) : ℕ := if mode ≠ 0 then 2 else 0

theorem pidLen_cases (mode : UInt8) : pidLen mode = 0 ∨ pidLen mode = 2 := by
  unfold pidLen
  split <;> simp

theorem parseDest_of_holds (rimeaddrSize : ℕ) {m : Mem} {p : ℕ} {fcf : Fcf} (pf : Frame) {pid : UInt16}
    {addr : Mem}
    (h : m.Holds p (fieldBytes (pidLen fcf.destAddrMode) pid addr (addrLen fcf.destAddrMode))) :
    (parseDest rimeaddrSize m fcf (pf, p)).2 = p + pidLen fcf.destAddrMode + addrLen fcf.destAddrMode ∧
      (parseDest rimeaddrSize m fcf (pf, p)).1.destPid = (if fcf.destAddrMode = 0 then 0 else pid) ∧
      SameAddr rimeaddrSize fcf.destAddrMode addr
        (parseDest rimeaddrSize m fcf (pf, p)).1.destAddr := by
  by_cases h0 : fcf.destAddrMode = 0
  · simp only [parseDest, pidLen, h0, ne_eq, not_true_eq_false, if_false, if_true]
    exact ⟨rfl, trivial, sameAddr_null ..⟩
  · simp only [pidLen, ne_eq, h0, not_false_eq_true, if_true] at h
    obtain ⟨hpid, haddr⟩ := holds_fieldBytes.mp h
    simp only [parseDest, pidLen, h0, ne_eq, not_false_eq_true, if_true, if_false, parseAddr_len]
    exact ⟨trivial, hpid, sameAddr_parseAddr _ h0 haddr⟩

theorem parseSrc_of_holds (rimeaddrSize : ℕ) {m : Mem} {p : ℕ} {fcf : Fcf} (pf : Frame) {pid : UInt16}
    {addr : Mem} {plen : ℕ} (hplen : plen = if fcf.panidCompression = 0 then pidLen fcf.srcAddrMode else 0)
    (hpid : fcf.panidCompression ≠ 0 → fcf.srcAddrMode ≠ 0 → pf.destPid = pid)
    (h : m.Holds p (fieldBytes plen pid addr (addrLen fcf.srcAddrMode))) :
    (parseSrc rimeaddrSize m fcf (pf, p)).2 = p + plen + addrLen fcf.srcAddrMode ∧
      (parseSrc rimeaddrSize m fcf (pf, p)).1.srcPid = (if fcf.srcAddrMode = 0 then 0 else pid) ∧
      SameAddr rimeaddrSize fcf.srcAddrMode addr (parseSrc rimeaddrSize m fcf (pf, p)).1.srcAddr := by
  by_cases h0 : fcf.srcAddrMode = 0
  · have hz : plen = 0 := by simp [hplen, pidLen, h0]
    simp only [parseSrc, h0, ne_eq, not_true_eq_false, if_false, if_true, hz]
    exact ⟨rfl, trivial, sameAddr_null ..⟩
  · by_cases hc : fcf.panidCompression = 0
    · obtain rfl : plen = 2 := by simp [hplen, hc, pidLen, h0]
      obtain ⟨hat, haddr⟩ := holds_fieldBytes.mp h
      simp only [parseSrc, h0, hc, ne_eq, not_false_eq_true, if_true, if_false, parseAddr_len]
      exact ⟨trivial, hat, sameAddr_parseAddr _ h0 haddr⟩
    · obtain rfl : plen = 0 := by simp [hplen, hc]
      simp only [parseSrc, h0, hc, ne_eq, not_false_eq_true, if_true, if_false, parseAddr_len]
      exact ⟨rfl, hpid hc h0, sameAddr_parseAddr _ h0 h⟩

theorem holds_parseDest (rimeaddrSize : ℕ) (m : Mem) (fcf : Fcf) (pf : Frame) (p : ℕ) :
    (parseDest rimeaddrSize m fcf (pf, p)).2 = p + pidLen fcf.destAddrMode + addrLen fcf.destAddrMode ∧
      m.Holds p (fieldBytes (pidLen fcf.destAddrMode) (parseDest rimeaddrSize m fcf (pf, p)).1.destPid
        (parseDest rimeaddrSize m fcf (pf, p)).1.destAddr (addrLen fcf.destAddrMode)) := by
  by_cases h0 : fcf.destAddrMode = 0
  · simp only [parseDest, pidLen, h0, ne_eq, not_true_eq_false, if_false]
    exact ⟨rfl, Mem.holds_nil ..⟩
  · simp only [parseDest, pidLen, h0, ne_eq, not_false_eq_true, if_true, parseAddr_len]
    refine ⟨trivial, holds_fieldBytes.mpr ⟨rfl, holds_addrBytes.mpr fun i hi => ?_⟩⟩
    exact parseAddr_apply _ _ _ _ _ hi

theorem holds_parseSrc (rimeaddrSize : ℕ) (m : Mem) (fcf : Fcf) (pf : Frame) (p : ℕ) {plen : ℕ}
    (hplen : plen = if fcf.panidCompression = 0 then pidLen fcf.srcAddrMode else 0) :
    (parseSrc rimeaddrSize m fcf (pf, p)).2 = p + plen + addrLen fcf.srcAddrMode ∧
      m.Holds p (fieldBytes plen (parseSrc rimeaddrSize m fcf (pf, p)).1.srcPid
        (parseSrc rimeaddrSize m fcf (pf, p)).1.srcAddr (addrLen fcf.srcAddrMode)) := by
  by_cases h0 : fcf.srcAddrMode = 0
  · obtain rfl : plen = 0 := by simp [hplen, pidLen, h0]
    simp only [parseSrc, h0, ne_eq, not_true_eq_false, if_false]
    exact ⟨rfl, Mem.holds_nil ..⟩
  · by_cases hc : fcf.panidCompression = 0
    · obtain rfl : plen = 2 := by simp [hplen, hc, pidLen, h0]
      simp only [parseSrc, h0, hc, ne_eq, not_false_eq_true, if_true, parseAddr_len]
      refine ⟨trivial, holds_fieldBytes.mpr ⟨rfl, holds_addrBytes.mpr fun i hi => ?_⟩⟩
      exact parseAddr_apply _ _ _ _ _ hi
    · obtain rfl : plen = 0 := by simp [hplen, hc]
      simp only [parseSrc, h0, hc, ne_eq, not_false_eq_true, if_true, if_false, parseAddr_len]
      exact ⟨rfl, holds_addrBytes.mpr fun i hi => parseAddr_apply _ _ _ _ _ hi⟩

theorem parseDest_frame (rimeaddrSize : ℕ) (m : Mem) (fcf : Fcf) (s : Frame × ℕ) :
    (parseDest rimeaddrSize m fcf s).1.fcf = s.1.fcf ∧
      (parseDest rimeaddrSize m fcf s).1.seq = s.1.seq := by
  simp only [parseDest]
  split <;> exact ⟨rfl, rfl⟩

theorem parseSrc_frame (rimeaddrSize : ℕ) (m : Mem) (fcf : Fcf) (s : Frame × ℕ) :
    (parseSrc rimeaddrSize m fcf s).1.fcf = s.1.fcf ∧
      (parseSrc rimeaddrSize m fcf s).1.seq = s.1.seq ∧
      (parseSrc rimeaddrSize m fcf s).1.destPid = s.1.destPid ∧
      (parseSrc rimeaddrSize m fcf s).1.destAddr = s.1.destAddr := by
  simp only [parseSrc]
  split <;> exact ⟨rfl, rfl, rfl, rfl⟩

/-! ## Round trips -/

/-- What a frame `q` that was parsed shares with the frame `p` that was created. -/
structure Carries (rimeaddrSize : ℕ) (p q : Frame) : Prop where
  fcf : q.fcf = (hdrlen p).2.fcf.masked
  seq : q.seq = p.seq
  destPid : q.destPid = if p.fcf.destAddrMode &&& 3 = 0 then 0 else p.destPid
  destAddr : SameAddr rimeaddrSize (p.fcf.destAddrMode &&& 3) p.destAddr q.destAddr
  srcPid : q.srcPid = if p.fcf.srcAddrMode &&& 3 = 0 then 0 else p.srcPid
  srcAddr : SameAddr rimeaddrSize (p.fcf.srcAddrMode &&& 3) p.srcAddr q.srcAddr

/-- The compression bit is set when the PAN ID of the source is left out. -/
def Frame.Compressed (p : Frame) : Prop :=
  p.fcf.destAddrMode &&& 3 ≠ 0 ∧ p.fcf.srcAddrMode &&& 3 ≠ 0 ∧ p.srcPid = p.destPid

instance (p : Frame) : Decidable p.Compressed := by
  unfold Frame.Compressed
  infer_instance

theorem fieldLen_fcf (p : Frame) :
    (fieldLen p).1.fcf = { p.fcf with panidCompression := if p.Compressed then 1 else 0 } := rfl

theorem compression_eq (p : Frame) :
    (fieldLen p).1.fcf.masked.panidCompression = if p.Compressed then 1 else 0 := by
  rw [fieldLen_fcf]
  by_cases hc : p.Compressed <;> simp [Fcf.masked, hc]

theorem srcPidLen_eq (p : Frame) : (fieldLen p).2.srcPidLen =
    if (fieldLen p).1.fcf.masked.panidCompression = 0 then pidLen (p.fcf.srcAddrMode &&& 3) else 0 := by
  rw [compression_eq]
  by_cases hc : p.Compressed
  · rw [if_pos hc]
    exact if_pos hc
  · rw [if_neg hc]
    exact if_neg hc

theorem header_eq (p : Frame) : header p =
    [(fieldLen p).1.fcf.byte0, (fieldLen p).1.fcf.byte1, p.seq] ++
      fieldBytes (pidLen (p.fcf.destAddrMode &&& 3)) p.destPid p.destAddr
        (addrLen (p.fcf.destAddrMode &&& 3)) ++
      fieldBytes (fieldLen p).2.srcPidLen p.srcPid p.srcAddr (addrLen (p.fcf.srcAddrMode &&& 3)) :=
  rfl

/-- The header part by part. -/
theorem holds_header {p : Frame} {m : Mem} {data : ℕ} : m.Holds data (header p) ↔
    (m data = (fieldLen p).1.fcf.byte0 ∧ m (data + 1) = (fieldLen p).1.fcf.byte1 ∧
      m (data + 2) = p.seq) ∧
    m.Holds (data + 3) (fieldBytes (pidLen (p.fcf.destAddrMode &&& 3)) p.destPid p.destAddr
      (addrLen (p.fcf.destAddrMode &&& 3))) ∧
    m.Holds (data + 3 + pidLen (p.fcf.destAddrMode &&& 3) + addrLen (p.fcf.destAddrMode &&& 3))
      (fieldBytes (fieldLen p).2.srcPidLen p.srcPid p.srcAddr
        (addrLen (p.fcf.srcAddrMode &&& 3))) := by
  have hlen : ([(fieldLen p).1.fcf.byte0, (fieldLen p).1.fcf.byte1, p.seq] ++
      fieldBytes (pidLen (p.fcf.destAddrMode &&& 3)) p.destPid p.destAddr
        (addrLen (p.fcf.destAddrMode &&& 3))).length =
      3 + pidLen (p.fcf.destAddrMode &&& 3) + addrLen (p.fcf.destAddrMode &&& 3) := by
    rw [List.length_append, length_fieldBytes (pidLen_cases _), Nat.add_assoc]
    rfl
  rw [header_eq, Mem.holds_append, hlen, Mem.holds_append, Mem.holds_cons, Mem.holds_cons, Mem.holds_cons]
  simp only [Mem.holds_nil, and_true, and_assoc, Nat.add_assoc, List.length_cons, List.length_nil]

/-- The fields of the frame that starts at `data`, and where its payload starts. -/
def fields (rimeaddrSize : ℕ) (m : Mem) (data : ℕ) (pf : Frame) : Frame × ℕ :=
  let fcf := Fcf.ofBytes (m data) (m (data + 1))
  parseSrc rimeaddrSize m fcf
    (parseDest rimeaddrSize m fcf ({ pf with fcf := fcf, seq := m (data + 2) }, data + 3))

theorem parse_eq (rimeaddrSize : ℕ) (m : Mem) (data : ℕ) {len : ℕ} (h : 3 ≤ len) (pf : Frame) :
    parse rimeaddrSize m data len pf =
      (if len < (fields rimeaddrSize m data pf).2 - data then 0
        else (fields rimeaddrSize m data pf).2 - data,
      { (fields rimeaddrSize m data pf).1 with
        payloadLen := UInt8.ofInt ((len : ℤ) - ((fields rimeaddrSize m data pf).2 - data : ℕ))
        payload := (fields rimeaddrSize m data pf).2 }) := by
  rw [parse, if_neg (by omega)]
  rfl

theorem fields_of_holds (rimeaddrSize : ℕ) {p : Frame} {m : Mem} {data : ℕ}
    (h : m.Holds data (header p)) (pf : Frame) :
    (fields rimeaddrSize m data pf).2 = data + (hdrlen p).1 ∧
      Carries rimeaddrSize p (fields rimeaddrSize m data pf).1 := by
  obtain ⟨⟨h0, h1, h2⟩, hdest, hsrc⟩ := holds_header.mp h
  have htotal : (hdrlen p).1 = 3 + pidLen (p.fcf.destAddrMode &&& 3) +
    addrLen (p.fcf.destAddrMode &&& 3) + (fieldLen p).2.srcPidLen +
    addrLen (p.fcf.srcAddrMode &&& 3) := rfl
  have hof : Fcf.ofBytes (m data) (m (data + 1)) = (fieldLen p).1.fcf.masked := by
    rw [h0, h1, Fcf.ofBytes_bytes]
  have hcomp := compression_eq p
  have hplen := srcPidLen_eq p
  have hdm : (fieldLen p).1.fcf.masked.destAddrMode = p.fcf.destAddrMode &&& 3 := rfl
  have hsm : (fieldLen p).1.fcf.masked.srcAddrMode = p.fcf.srcAddrMode &&& 3 := rfl
  have hmasked : (hdrlen p).2.fcf.masked = (fieldLen p).1.fcf.masked := rfl
  rw [fields, hof]
  generalize (fieldLen p).1.fcf.masked = f at *
  rw [← hdm] at hdest hsrc htotal
  rw [← hsm] at hsrc htotal hplen
  generalize hpf : ({ pf with fcf := f, seq := m (data + 2) } : Frame) = pf'
  obtain ⟨hpos, hpid, haddr⟩ := parseDest_of_holds rimeaddrSize pf' hdest
  obtain ⟨hf1, hf2⟩ := parseDest_frame rimeaddrSize m f (pf', data + 3)
  generalize parseDest rimeaddrSize m f (pf', data + 3) = d at *
  have hsame : f.panidCompression ≠ 0 → f.srcAddrMode ≠ 0 → d.1.destPid = p.srcPid := by
    intro hc _
    have hcp : p.Compressed := by
      by_contra hn
      exact hc (hcomp.trans (if_neg hn))
    rw [hpid, hcp.2.2, if_neg (hdm ▸ hcp.1)]
  obtain ⟨hpos', hpid', haddr'⟩ := parseSrc_of_holds rimeaddrSize d.1 hplen hsame hsrc
  rw [← hpos] at hpos' hpid' haddr'
  obtain ⟨hg1, hg2, hg3, hg4⟩ := parseSrc_frame rimeaddrSize m f d
  refine ⟨?_, ?_, ?_, ?_, ?_, ?_, ?_⟩
  · rw [hpos', hpos, htotal]
    omega
  · rw [hg1, hf1, hmasked, ← hpf]
  · rw [hg2, hf2, ← hpf]
    exact h2
  · rw [hg3, hpid, hdm]
  · rw [hg4, ← hdm]
    exact haddr
  · rw [hpid', hsm]
  · rw [← hsm]
    exact haddr'

theorem Carries.with_payload {rimeaddrSize : ℕ} {p q : Frame} (h : Carries rimeaddrSize p q) (l : UInt8)
    (at_ : ℕ) : Carries rimeaddrSize p { q with payloadLen := l, payload := at_ } :=
  ⟨h.fcf, h.seq, h.destPid, h.destAddr, h.srcPid, h.srcAddr⟩

theorem hdrlen_pos (p : Frame) : 3 ≤ (hdrlen p).1 := by
  rw [← length_header, header_eq]
  simp only [List.length_append, List.length_cons, List.length_nil]
  omega

/-- A header is found again. -/
theorem parse_of_holds (rimeaddrSize : ℕ) {p : Frame} {m : Mem} {data len : ℕ}
    (h : m.Holds data (header p)) (hlen : (hdrlen p).1 ≤ len) (pf : Frame) :
    (parse rimeaddrSize m data len pf).1 = (hdrlen p).1 ∧
      Carries rimeaddrSize p (parse rimeaddrSize m data len pf).2 ∧
      (parse rimeaddrSize m data len pf).2.payload = data + (hdrlen p).1 ∧
      (parse rimeaddrSize m data len pf).2.payloadLen.toNat = (len - (hdrlen p).1) % 256 := by
  obtain ⟨hpos, hcarries⟩ := fields_of_holds rimeaddrSize h pf
  have h3 := hdrlen_pos p
  rw [parse_eq rimeaddrSize m data (by omega) pf, hpos, Nat.add_sub_cancel_left,
    if_neg (Nat.not_lt.mpr hlen)]
  refine ⟨rfl, hcarries.with_payload .., rfl, ?_⟩
  show (UInt8.ofInt ((len : ℤ) - (hdrlen p).1)).toNat = (len - (hdrlen p).1) % 256
  rw [UInt8.ofInt, UInt8.toNat_ofNat']
  omega

/-- A frame that starts with the header `frame802154_create` has made is parsed back into the fields
it was made from, whatever the parsed frame held before, and the header takes nothing but its own
place in the buffer. -/
theorem parse_create (rimeaddrSize : ℕ) (p : Frame) (m : Mem) {buf bufLen : ℕ}
    (hbuf : (hdrlen p).1 ≤ bufLen) {m' : Mem} {data len : ℕ}
    (hm : ∀ i < (hdrlen p).1, m' (data + i) = (create p m buf bufLen).2.2 (buf + i))
    (hlen : (hdrlen p).1 ≤ len) (pf : Frame) :
    (parse rimeaddrSize m' data len pf).1 = (create p m buf bufLen).1 ∧
      Carries rimeaddrSize p (parse rimeaddrSize m' data len pf).2 ∧
      (parse rimeaddrSize m' data len pf).2.payload = data + (create p m buf bufLen).1 ∧
      (parse rimeaddrSize m' data len pf).2.payloadLen.toNat =
        (len - (create p m buf bufLen).1) % 256 ∧
      ∀ i, i < buf ∨ buf + (create p m buf bufLen).1 ≤ i → (create p m buf bufLen).2.2 i = m i := by
  rw [create_eq, if_neg (Nat.not_lt.mpr hbuf)] at hm ⊢
  have hholds : m'.Holds data (header p) := by
    rw [Mem.Holds, length_header, (Mem.read_eq_iff _ _ _ _ _).mpr hm, ← length_header]
    exact Mem.holds_copy ..
  obtain ⟨hc, hcarries, hpay, hplen⟩ := parse_of_holds rimeaddrSize hholds hlen pf
  exact ⟨hc, hcarries, hpay, hplen, fun i hi => Mem.copy_of_not_mem _ _ _ (by rwa [length_header])⟩

/-- A data frame between two nodes of one network. -/
def dataFrame : Frame where
  fcf := ⟨1, 0, 0, 1, 0, shortaddrmode, 0, shortaddrmode⟩
  seq := 7
  destPid := 0xABCD
  destAddr := fun i => if i = 0 then 3 else 4
  srcPid := 0xABCD
  srcAddr := fun i => if i = 0 then 5 else 6
  payload := 0
  payloadLen := 0

theorem parse_create_data_frame :
    (hdrlen dataFrame).1 = 9 ∧
      (parse 2 (create dataFrame (fun _ => 0) 0 20).2.2 0 12 dataFrame).1 = 9 ∧
      Carries 2 dataFrame (parse 2 (create dataFrame (fun _ => 0) 0 20).2.2 0 12 dataFrame).2 := by
  obtain ⟨hc, hcarries, -⟩ := parse_create 2 dataFrame (fun _ => 0)
    (show (hdrlen dataFrame).1 ≤ 20 by decide)
    (show ∀ i < (hdrlen dataFrame).1, (create dataFrame (fun _ => 0) 0 20).2.2 (0 + i) =
      (create dataFrame (fun _ => 0) 0 20).2.2 (0 + i) from fun _ _ => rfl)
    (show (hdrlen dataFrame).1 ≤ 12 by decide) dataFrame
  exact ⟨by decide, hc.trans (by decide), hcarries⟩

/-- What is parsed stands in the data, whatever the data are. -/
theorem holds_fields (rimeaddrSize : ℕ) (m : Mem) (data : ℕ) (pf : Frame) {f : Fcf}
    (hof : Fcf.ofBytes (m data) (m (data + 1)) = f) {q : Frame} {pos plen : ℕ}
    (h : fields rimeaddrSize m data pf = (q, pos))
    (hplen : plen = if f.panidCompression = 0 then pidLen f.srcAddrMode else 0) :
    q.fcf = f ∧ q.seq = m (data + 2) ∧
      pos = data + (3 + pidLen f.destAddrMode + addrLen f.destAddrMode + plen + addrLen f.srcAddrMode) ∧
      m.Holds (data + 3) (fieldBytes (pidLen f.destAddrMode) q.destPid q.destAddr
        (addrLen f.destAddrMode)) ∧
      m.Holds (data + 3 + pidLen f.destAddrMode + addrLen f.destAddrMode)
        (fieldBytes plen q.srcPid q.srcAddr (addrLen f.srcAddrMode)) := by
  rw [fields, hof] at h
  generalize hpf : ({ pf with fcf := f, seq := m (data + 2) } : Frame) = pf' at h
  obtain ⟨hpos, hdest⟩ := holds_parseDest rimeaddrSize m f pf' (data + 3)
  obtain ⟨hf1, hf2⟩ := parseDest_frame rimeaddrSize m f (pf', data + 3)
  generalize parseDest rimeaddrSize m f (pf', data + 3) = d at *
  obtain ⟨hpos', hsrc⟩ := holds_parseSrc rimeaddrSize m f d.1 d.2 hplen
  obtain ⟨hg1, hg2, hg3, hg4⟩ := parseSrc_frame rimeaddrSize m f d
  rw [h] at hpos' hsrc hg1 hg2 hg3 hg4
  rw [hpos] at hpos' hsrc
  refine ⟨by rw [hg1, hf1, ← hpf], by rw [hg2, hf2, ← hpf], ?_, by rwa [hg3, hg4], hsrc⟩
  have hpos' : pos = _ := hpos'
  rw [hpos']
  omega

theorem and_eq_self_iff (b0 b1 : UInt8) :
    (b0 = b0 &&& 0x7f ↔ b0 &&& 0x80 = 0) ∧ (b1 = b1 &&& 0xfc ↔ b1 &&& 3 = 0) := by
  have h0 : ∀ b : UInt8, b = b &&& 0x7f ↔ b &&& 0x80 = 0 := forall_byte (by decide +kernel)
  have h1 : ∀ b : UInt8, b = b &&& 0xfc ↔ b &&& 3 = 0 := forall_byte (by decide +kernel)
  exact ⟨h0 b0, h1 b1⟩

theorem masked_ofBytes (b0 b1 : UInt8) : (Fcf.ofBytes b0 b1).masked = Fcf.ofBytes b0 b1 := by
  have h7 : ∀ b : UInt8, b &&& 7 &&& 7 = b &&& 7 := forall_byte (by decide +kernel)
  have h3 : ∀ b : UInt8, b &&& 3 &&& 3 = b &&& 3 := forall_byte (by decide +kernel)
  have h1 : ∀ b : UInt8, b &&& 1 &&& 1 = b &&& 1 := forall_byte (by decide +kernel)
  simp only [Fcf.masked, Fcf.ofBytes, h7, h3, h1]

theorem compressed_iff {f : Fcf} {b0 b1 : UInt8} (hf : Fcf.ofBytes b0 b1 = f) {q : Frame}
    (hq : q.fcf = f) : f.panidCompression = (if q.Compressed then 1 else 0) ↔
      (q.fcf.panidCompression = 1 ↔
        q.fcf.destAddrMode ≠ 0 ∧ q.fcf.srcAddrMode ≠ 0 ∧ q.srcPid = q.destPid) := by
  have hmask : f.masked = f := by rw [← hf, masked_ofBytes]
  have hd : f.destAddrMode &&& 3 = f.destAddrMode := congrArg Fcf.destAddrMode hmask
  have hs : f.srcAddrMode &&& 3 = f.srcAddrMode := congrArg Fcf.srcAddrMode hmask
  have hbit : f.panidCompression = 0 ∨ f.panidCompression = 1 := by
    have hall : ∀ b : UInt8, b >>> 6 &&& 1 = 0 ∨ b >>> 6 &&& 1 = 1 := forall_byte (by decide +kernel)
    rw [← hf]
    exact hall b0
  have hcond : q.Compressed ↔
      f.destAddrMode ≠ 0 ∧ f.srcAddrMode ≠ 0 ∧ q.srcPid = q.destPid := by
    unfold Frame.Compressed
    rw [hq, hd, hs]
  rw [hq, ← hcond]
  split <;> rename_i hcond
  · rw [iff_true_right hcond]
  · rw [iff_false_right hcond]
    rcases hbit with h0 | h1
    · simp [h0]
    · simp [h1]

/-- Creating the header of a frame that was parsed gives the bytes it was parsed from exactly when
their reserved bits are clear and the compression bit stands for what it should: two PAN IDs that
are the same. -/
theorem header_parse_iff (rimeaddrSize : ℕ) (m : Mem) (data : ℕ) {len : ℕ} (pf : Frame)
    {c : ℕ} {q : Frame} (h : parse rimeaddrSize m data len pf = (c, q)) (hc : c ≠ 0) :
    header q = Mem.read m data c ↔ m data &&& 0x80 = 0 ∧ m (data + 1) &&& 3 = 0 ∧
      (q.fcf.panidCompression = 1 ↔
        q.fcf.destAddrMode ≠ 0 ∧ q.fcf.srcAddrMode ≠ 0 ∧ q.srcPid = q.destPid) := by
  have hlen : 3 ≤ len := by
    by_contra hn
    rw [parse, if_pos (by omega)] at h
    exact hc (congrArg Prod.fst h).symm
  rw [parse_eq rimeaddrSize m data hlen pf] at h
  obtain ⟨⟨q', pos⟩, hfields⟩ : ∃ r, fields rimeaddrSize m data pf = r := ⟨_, rfl⟩
  obtain ⟨f, hof⟩ : ∃ f, Fcf.ofBytes (m data) (m (data + 1)) = f := ⟨_, rfl⟩
  obtain ⟨hfcf, hseq, hpos, hdest, hsrc⟩ := holds_fields rimeaddrSize m data pf hof hfields rfl
  rw [hfields, Prod.mk.injEq] at h
  obtain ⟨hc', rfl⟩ := h
  have hc' : c = pos - data := by
    rw [← hc']
    exact if_neg fun hlt => hc (hc'.symm.trans (if_pos hlt))
  generalize hq : ({ q' with
    payloadLen := UInt8.ofInt ((len : ℤ) - (pos - data : ℕ)), payload := pos } : Frame) = q
  obtain ⟨hqf, hqs, hqd, hqa, hqp, hqo⟩ : q.fcf = f ∧ q.seq = m (data + 2) ∧
      q.destPid = q'.destPid ∧ q.destAddr = q'.destAddr ∧ q.srcPid = q'.srcPid ∧
      q.srcAddr = q'.srcAddr := by
    rw [← hq]
    exact ⟨hfcf, hseq, rfl, rfl, rfl, rfl⟩
  rw [← hqd, ← hqa] at hdest
  rw [← hqp, ← hqo] at hsrc
  have hmask : f.masked = f := by rw [← hof, masked_ofBytes]
  have hd : q.fcf.destAddrMode &&& 3 = f.destAddrMode := by
    rw [hqf]
    exact congrArg Fcf.destAddrMode hmask
  have hs : q.fcf.srcAddrMode &&& 3 = f.srcAddrMode := by
    rw [hqf]
    exact congrArg Fcf.srcAddrMode hmask
  -- the bit is right exactly when `field_len` leaves the control field as it was parsed
  have hsame : f.panidCompression = (if q.Compressed then 1 else 0) ↔ (fieldLen q).1.fcf = f := by
    rw [fieldLen_fcf, hqf]
    exact ⟨fun h => by rw [← h], fun h => (congrArg Fcf.panidCompression h).symm⟩
  have hbytes : f.byte0 = m data &&& 0x7f ∧ f.byte1 = m (data + 1) &&& 0xfc := by
    rw [← hof]
    exact Fcf.bytes_ofBytes _ _
  obtain ⟨hres0, hres1⟩ := and_eq_self_iff (m data) (m (data + 1))
  rw [← compressed_iff hof hqf, hsame, ← hres0, ← hres1, ← hbytes.1, ← hbytes.2]
  constructor
  · intro h
    have hholds : m.Holds data (header q) := by
      have hl := congrArg List.length h
      rw [Mem.length_read] at hl
      rw [Mem.Holds, hl, h]
    obtain ⟨⟨h0, h1, -⟩, -⟩ := holds_header.mp hholds
    have hf : (fieldLen q).1.fcf = f := by
      rw [← hsame, ← compression_eq, ← Fcf.ofBytes_bytes, ← h0, ← h1, hof]
    rw [hf] at h0 h1
    exact ⟨h0, h1, hf⟩
  · rintro ⟨h0, h1, hf⟩
    have hplen : (fieldLen q).2.srcPidLen =
        if f.panidCompression = 0 then pidLen f.srcAddrMode else 0 := by
      rw [srcPidLen_eq, hf, hmask, hs]
    have hholds : m.Holds data (header q) := by
      refine holds_header.mpr ⟨⟨?_, ?_, hqs.symm⟩, ?_, ?_⟩
      · rw [hf]
        exact h0
      · rw [hf]
        exact h1
      · rwa [hd]
      · rwa [hd, hs, hplen]
    have hl : (header q).length = c := by
      rw [length_header, hc', hpos, Nat.add_sub_cancel_left, ← hplen, ← hd, ← hs]
      rfl
    rw [← hl]
    exact hholds.symm

/-- The header of `dataFrame`, and two bytes behind it. -/
def dataBytes : Mem := fun i =>
  [0x61, 0x88, 7, 0xCD, 0xAB, 4, 3, 6, 5, 1, 2].getD i 0

theorem header_parse_iff_data_frame :
    (parse 2 dataBytes 0 11 dataFrame).1 = 9 ∧
      header (parse 2 dataBytes 0 11 dataFrame).2 =
        Mem.read dataBytes 0 (parse 2 dataBytes 0 11 dataFrame).1 :=
  ⟨by decide, (header_parse_iff 2 dataBytes 0 dataFrame
    (show parse 2 dataBytes 0 11 dataFrame =
      ((parse 2 dataBytes 0 11 dataFrame).1, (parse 2 dataBytes 0 11 dataFrame).2) from rfl)
    (by decide)).mpr (by decide)⟩

end Adler.Net
