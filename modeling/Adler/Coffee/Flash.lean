/-
  The flash below the Coffee file system (`platform/ez240/dev/xmem.c`) and the file headers on it.

  Bits are stored inverted, so an erased byte reads as 0, and programming can only set bits: what is
  written is joined with what was there. Addresses count from `COFFEE_START`.

  The pages of an extent start with a header of 26 bytes. `coffee_page_t` has 16 bits and is signed;
  no page number or extent here gets near the sign, so both are natural numbers, and `INVALID_PAGE`
  is the pattern of -1.
-/
import Adler.Lib.Memory
import Mathlib.Tactic.Common

namespace Adler.Coffee

open Lib (Mem)

/-! ## Constants of the platform -/

/-- `COFFEE_PAGE_SIZE`. -/
@[simp] abbrev pageSize : Nat := 256

/-- `COFFEE_SECTOR_SIZE`. -/
@[simp] abbrev sectorSize : Nat := 65536

/-- `COFFEE_PAGES_PER_SECTOR`. -/
@[simp] abbrev pagesPerSector : Nat := 256

/-- `COFFEE_SECTOR_COUNT`. -/
@[simp] abbrev sectorCount : Nat := 15

/-- `COFFEE_PAGE_COUNT`. -/
@[simp] abbrev pageCount : Nat := 3840

/-- `COFFEE_DYN_SIZE`. -/
@[simp] abbrev dynSize : Nat := 4096

/-- `COFFEE_LOG_SIZE`. -/
@[simp] abbrev logSize : Nat := 1024

/-- `COFFEE_LOG_TABLE_LIMIT`. -/
@[simp] abbrev logTableLimit : Nat := 256

/-- `sizeof(struct file_header)`. -/
@[simp] abbrev headerSize : Nat := 26

/-- `INVALID_PAGE`. -/
@[simp] abbrev invalidPage : Nat := 65535

/-! ## The flash -/

/-- `COFFEE_WRITE`. -/
def pwrite (m : Mem) (off : Nat) (src : List UInt8) : Mem := fun i =>
  if off ≤ i ∧ i < off + src.length then m i ||| src.getD (i - off) 0 else m i

/-- `COFFEE_ERASE`. -/
def erase (m : Mem) (sector : Nat) : Mem := fun i =>
  if sectorSize * sector ≤ i ∧ i < sectorSize * (sector + 1) then 0 else m i

theorem pwrite_of_mem (m : Mem) {off i : Nat} {src : List UInt8} (h1 : off ≤ i)
    (h2 : i < off + src.length) : pwrite m off src i = m i ||| src.getD (i - off) 0 := by
  simp only [pwrite, h1, h2, and_self, if_true]

theorem pwrite_of_not_mem (m : Mem) {off i : Nat} {src : List UInt8}
    (h : i < off ∨ off + src.length ≤ i) : pwrite m off src i = m i := by
  have : ¬ (off ≤ i ∧ i < off + src.length) := by omega
  simp only [pwrite, if_neg this]

/-! ## Headers -/

/-- A field of two bytes. -/
def u16 (m : Mem) (a : Nat) : Nat := (m a).toNat + 256 * (m (a + 1)).toNat

def u16Bytes (n : Nat) : List UInt8 := [UInt8.ofNat n, UInt8.ofNat (n / 256)]

/-- `struct file_header`. -/
structure FileHeader where
  logPage : Nat
  logRecords : Nat
  logRecordSize : Nat
  maxPages : Nat
  deprecatedEofHint : UInt8
  flags : UInt8
  name : List UInt8
deriving DecidableEq

@[simp] abbrev hdrFlagValid : UInt8 := 0x1
@[simp] abbrev hdrFlagAllocated : UInt8 := 0x2
@[simp] abbrev hdrFlagObsolete : UInt8 := 0x4
@[simp] abbrev hdrFlagModified : UInt8 := 0x8
@[simp] abbrev hdrFlagLog : UInt8 := 0x10
@[simp] abbrev hdrFlagIsolated : UInt8 := 0x20

namespace FileHeader

/-- `CHECK_FLAG`. -/
def check (hdr : FileHeader) (flag : UInt8) : Bool := hdr.flags &&& flag ≠ 0

/-- `HDR_FREE`. -/
def free (hdr : FileHeader) : Bool := !hdr.check hdrFlagAllocated

/-- `HDR_ACTIVE`. -/
def active (hdr : FileHeader) : Bool :=
  hdr.check hdrFlagAllocated && !hdr.check hdrFlagObsolete && !hdr.check hdrFlagIsolated

/-- The header that a `memset` to 0 gives. -/
def blank : FileHeader := ⟨0, 0, 0, 0, 0, 0, List.replicate 16 0⟩

/-- The header as `write_header` stores it. -/
abbrev valid (hdr : FileHeader) : FileHeader := { hdr with flags := hdr.flags ||| hdrFlagValid }

/-- The bytes of the header on the flash. -/
def bytes (hdr : FileHeader) : List UInt8 :=
  u16Bytes hdr.logPage ++ u16Bytes hdr.logRecords ++ u16Bytes hdr.logRecordSize ++
    u16Bytes hdr.maxPages ++ [hdr.deprecatedEofHint, hdr.flags] ++ hdr.name

end FileHeader

/-- `read_header`. -/
def readHeader (m : Mem) (page : Nat) : FileHeader where
  logPage := u16 m (pageSize * page)
  logRecords := u16 m (pageSize * page + 2)
  logRecordSize := u16 m (pageSize * page + 4)
  maxPages := u16 m (pageSize * page + 6)
  deprecatedEofHint := m (pageSize * page + 8)
  flags := m (pageSize * page + 9)
  name := m.read (pageSize * page + 10) 16

/-- `write_header`. -/
def writeHeader (m : Mem) (hdr : FileHeader) (page : Nat) : Mem :=
  pwrite m (pageSize * page) hdr.valid.bytes

/-- `absolute_offset`. -/
def absoluteOffset (page offset : Nat) : Nat := pageSize * page + headerSize + offset

/-! ## What a header depends on -/

theorem or_and_eq (a b f : UInt8) : (a ||| b) &&& f = a &&& f ||| b &&& f :=
  UInt8.toBitVec_inj.mp BitVec.and_or_distrib_right

/-- A bit that is written is set. -/
theorem or_and_ne_zero {x a b : UInt8} (h : a &&& b ≠ 0) : (x ||| a) &&& b ≠ 0 := by
  rw [or_and_eq, ne_eq, UInt8.or_eq_zero_iff]
  exact fun h0 => h h0.2

/-- Where one of several bits is set, some bit is. -/
theorem ne_zero_of_and {a b : UInt8} (h : a &&& b ≠ 0) : a ≠ 0 := by
  rintro rfl
  exact h UInt8.zero_and

/-- The flags of a header with others joined to them. -/
theorem check_or (hdr : FileHeader) (flags flag : UInt8) :
    { hdr with flags := hdr.flags ||| flags }.check flag =
      (hdr.check flag || decide (flags &&& flag ≠ 0)) := by
  simp only [FileHeader.check, or_and_eq, ne_eq, UInt8.or_eq_zero_iff, not_and_or,
    Bool.decide_or]

theorem readHeader_congr {m m' : Mem} {page : Nat}
    (h : ∀ i, i < headerSize → m' (pageSize * page + i) = m (pageSize * page + i)) :
    readHeader m' page = readHeader m page := by
  have hname : m'.read (pageSize * page + 10) 16 = m.read (pageSize * page + 10) 16 := by
    refine Mem.read_congr fun i hi => ?_
    rw [Nat.add_assoc]
    exact h (10 + i) (by simp only [headerSize]; omega)
  have h0 := h 0 (by decide)
  simp only [readHeader, u16, hname, Nat.add_assoc, h 1 (by decide), h 2 (by decide),
    h 3 (by decide), h 4 (by decide), h 5 (by decide), h 6 (by decide), h 7 (by decide),
    h 8 (by decide), h 9 (by decide), Nat.reduceAdd]
  rw [Nat.add_zero] at h0
  rw [h0]

theorem length_bytes {hdr : FileHeader} (h : hdr.name.length = 16) :
    hdr.bytes.length = headerSize := by
  simp [FileHeader.bytes, u16Bytes, h]

/-- `write_header` leaves everything but the header. -/
theorem writeHeader_other {m : Mem} {hdr : FileHeader} {page i : Nat} (h : hdr.name.length = 16)
    (hi : i < pageSize * page ∨ pageSize * page + headerSize ≤ i) :
    writeHeader m hdr page i = m i := by
  unfold writeHeader
  have hlen : hdr.valid.bytes.length = headerSize := length_bytes h
  exact pwrite_of_not_mem m (by rw [hlen]; exact hi)

theorem flags_writeHeader (m : Mem) {hdr : FileHeader} {page : Nat} (h : hdr.name.length = 16) :
    (readHeader (writeHeader m hdr page) page).flags =
      (readHeader m page).flags ||| (hdr.flags ||| hdrFlagValid) := by
  unfold writeHeader readHeader
  dsimp only
  have hlen : hdr.valid.bytes.length = headerSize := length_bytes h
  rw [pwrite_of_mem m (Nat.le_add_right _ _) (by rw [hlen]; simp only [headerSize]; omega),
    Nat.add_sub_cancel_left]
  rfl

theorem readHeader_writeHeader_other {m : Mem} {hdr : FileHeader} {page q : Nat}
    (h : hdr.name.length = 16) (hq : q ≠ page) :
    readHeader (writeHeader m hdr page) q = readHeader m q := by
  refine readHeader_congr fun i hi => writeHeader_other h ?_
  simp only [headerSize, pageSize] at hi ⊢
  omega

end Adler.Coffee
