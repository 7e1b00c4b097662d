/-
  What writes to the flash do to the layout: new headers, data in an extent, extents that are
  marked obsolete, and `reserve`.

  * `readHeader_writeHeader`: a header written over an older one of the same extent.
  * `Ground.touch`, `Layout.touch`: writes within an extent.
  * `reserve_ends`: the new extent is empty, and no extent that reaches out of its sector has it for
    a neighbour there.
-/
import Adler.Coffee.Collect
import Adler.Coffee.Files

namespace Adler.Coffee

open Lib (Mem Prog Ends Cell Tiled Sectors Room LiveAt Clear)

variable {m m' : Mem} {B : Nat → Prop} {nf : Nat}

/-! ## Headers over headers -/

/-- Every byte of `new` keeps the bits of `old`. -/
structure FileHeader.Onto (old new : FileHeader) : Prop where
  logPage : old.logPage = 0 ∨ old.logPage = new.logPage
  logRecords : old.logRecords = 0 ∨ old.logRecords = new.logRecords
  logRecordSize : old.logRecordSize = 0 ∨ old.logRecordSize = new.logRecordSize
  maxPages : old.maxPages = 0 ∨ old.maxPages = new.maxPages
  deprecatedEofHint : old.deprecatedEofHint ||| new.deprecatedEofHint = new.deprecatedEofHint
  flags : old.flags ||| new.flags = new.flags
  name : ∀ i, i < 16 → old.name.getD i 0 ||| new.name.getD i 0 = new.name.getD i 0

/-- The header fits the fields of `struct file_header`. -/
structure FileHeader.Fits (hdr : FileHeader) : Prop where
  logPage : hdr.logPage < 65536
  logRecords : hdr.logRecords < 65536
  logRecordSize : hdr.logRecordSize < 65536
  maxPages : hdr.maxPages < 65536
  name : hdr.name.length = 16

theorem u16_lt (m : Mem) (a : Nat) : u16 m a < 65536 := by
  have h1 := (m a).toNat_lt
  have h2 := (m (a + 1)).toNat_lt
  unfold u16
  omega

theorem fits_readHeader (m : Mem) (page : Nat) : (readHeader m page).Fits where
  logPage := u16_lt m _
  logRecords := u16_lt m _
  logRecordSize := u16_lt m _
  maxPages := u16_lt m _
  name := Mem.length_read m _ _

/-- Two bytes joined with those of `n`. -/
theorem u16_or {a n : Nat} (hn : n < 65536) (h : u16 m a = 0 ∨ u16 m a = n)
    (h0 : m' a = m a ||| UInt8.ofNat n) (h1 : m' (a + 1) = m (a + 1) ||| UInt8.ofNat (n / 256)) :
    u16 m' a = n := by
  have hlo := (m a).toNat_lt
  have hhi := (m (a + 1)).toNat_lt
  have hbytes : m' a = UInt8.ofNat n ∧ m' (a + 1) = UInt8.ofNat (n / 256) := by
    rcases h with h | h
    · have hz0 : m a = 0 := UInt8.toNat_inj.mp (by simp only [u16, UInt8.toNat_zero] at h ⊢; omega)
      have hz1 : m (a + 1) = 0 :=
        UInt8.toNat_inj.mp (by simp only [u16, UInt8.toNat_zero] at h ⊢; omega)
      rw [h0, h1, hz0, hz1, UInt8.zero_or, UInt8.zero_or]
      exact ⟨rfl, rfl⟩
    · have he0 : m a = UInt8.ofNat n :=
        UInt8.toNat_inj.mp (by simp only [u16, UInt8.toNat_ofNat'] at h ⊢; omega)
      have he1 : m (a + 1) = UInt8.ofNat (n / 256) :=
        UInt8.toNat_inj.mp (by simp only [u16, UInt8.toNat_ofNat'] at h ⊢; omega)
      rw [h0, h1, he0, he1, UInt8.or_self, UInt8.or_self]
      exact ⟨rfl, rfl⟩
  simp only [u16, hbytes, UInt8.toNat_ofNat']
  omega

theorem writeHeader_of_mem (m : Mem) {hdr : FileHeader} {page i : Nat} (h : hdr.name.length = 16)
    (hi : i < headerSize) : writeHeader m hdr page (pageSize * page + i) =
      m (pageSize * page + i) |||
        hdr.valid.bytes.getD i 0 := by
  unfold writeHeader
  have hlen : hdr.valid.bytes.length = headerSize := length_bytes h
  rw [pwrite_of_mem m (Nat.le_add_right _ _) (by rw [hlen]; omega), Nat.add_sub_cancel_left]

/-- What is read after `write_header`. -/
theorem readHeader_writeHeader {hdr : FileHeader} {page : Nat} (hfits : hdr.Fits)
    (hon : (readHeader m page).Onto hdr.valid) :
    readHeader (writeHeader m hdr page) page = hdr.valid := by
  have hbyte : ∀ i, i < headerSize → writeHeader m hdr page (pageSize * page + i) =
      m (pageSize * page + i) ||| hdr.valid.bytes.getD i 0 :=
    fun i hi => writeHeader_of_mem m hfits.name hi
  have hname : (writeHeader m hdr page).read (pageSize * page + 10) 16 = hdr.name := by
    apply List.ext_getElem (by rw [Mem.length_read, hfits.name])
    intro i h1 h2
    rw [Mem.length_read] at h1
    have hold := hon.name i h1
    simp only [readHeader, Mem.getD_read m _ _ i h1] at hold
    simp only [Mem.read, List.getElem_map, List.getElem_range]
    rw [Nat.add_assoc, Nat.add_comm 10 i, hbyte (i + 10) (by simp only [headerSize]; omega)]
    have hget : hdr.valid.bytes.getD (i + 10) 0 =
        hdr.name.getD i 0 := rfl
    rw [hget, Nat.add_comm i 10, ← Nat.add_assoc, hold, List.getD_eq_getElem?_getD,
      List.getElem?_eq_getElem h2, Option.getD_some]
  have hfield : ∀ i n, i + 1 < headerSize → n < 65536 →
      (u16 m (pageSize * page + i) = 0 ∨ u16 m (pageSize * page + i) = n) →
      hdr.valid.bytes.getD i 0 = UInt8.ofNat n →
      hdr.valid.bytes.getD (i + 1) 0 = UInt8.ofNat (n / 256) →
      u16 (writeHeader m hdr page) (pageSize * page + i) = n := by
    intro i n hi hn h h0 h1
    refine u16_or hn h ?_ ?_
    · rw [hbyte i (by omega), h0]
    · rw [Nat.add_assoc, hbyte (i + 1) hi, h1]
  have h1 := hfield 0 hdr.logPage (by decide) hfits.logPage hon.logPage rfl rfl
  have h2 := hfield 2 hdr.logRecords (by decide) hfits.logRecords hon.logRecords rfl rfl
  have h3 := hfield 4 hdr.logRecordSize (by decide) hfits.logRecordSize hon.logRecordSize rfl rfl
  have h4 := hfield 6 hdr.maxPages (by decide) hfits.maxPages hon.maxPages rfl rfl
  have h5 := (hbyte 8 (by decide)).trans hon.deprecatedEofHint
  have h6 := (hbyte 9 (by decide)).trans hon.flags
  rw [Nat.add_zero] at h1
  unfold readHeader
  rw [h1, h2, h3, h4, h5, h6, hname]

/-! ## Writes within an extent -/

/-- Only bytes of the `n` pages from `b` on have changed. -/
def Within (m m' : Mem) (b n : Nat) : Prop := ∀ i, i < 256 * b ∨ 256 * (b + n) ≤ i → m' i = m i

variable {b n q : Nat}

theorem Within.readHeader (h : Within m m' b n) (hq : q < b ∨ b + n ≤ q) :
    readHeader m' q = readHeader m q := by
  refine readHeader_congr fun i hi => h _ ?_
  simp only [headerSize, pageSize] at hi ⊢
  omega

theorem within_writeHeader (m : Mem) {hdr : FileHeader} (h : hdr.name.length = 16) (hn : 1 ≤ n) :
    Within m (writeHeader m hdr b) b n := by
  intro i hi
  refine writeHeader_other h ?_
  simp only [headerSize, pageSize] at hi ⊢
  omega

/-- The other headers are out of the extent. -/
theorem Ground.outside (hg : Ground m nf B) (hB : B b) (hb : b < pageCount)
    (hext : cell m b = .extent n) (hq : B q) (hqb : q ≠ b) : q < b ∨ b + n ≤ q := by
  rcases Nat.lt_or_gt_of_ne hqb with hlt | hlt
  · exact .inl hlt
  · exact .inr (hg.tiled.end_le hB hb hext hq hlt)

theorem Ground.cell_touch (hg : Ground m nf B) (hB : B b) (hb : b < pageCount)
    (hext : cell m b = .extent n) (hw : Within m m' b n) (hcell : cell m' b = .extent n)
    (hq : B q) : cell m' q = cell m q := by
  by_cases hqb : q = b
  · rw [hqb, hcell, hext]
  · exact cell_congr (hw.readHeader (hg.outside hB hb hext hq hqb))

theorem Ground.touch (hg : Ground m nf B) (hB : B b) (hb : b < pageCount)
    (hext : cell m b = .extent n) (hw : Within m m' b n) (hcell : cell m' b = .extent n) :
    Ground m' nf B := by
  have hcells : ∀ q, B q → cell m' q = cell m q := fun q hq =>
    hg.cell_touch hB hb hext hw hcell hq
  refine ⟨hg.tiled.congr (fun q hq _ => hcells q hq) sectorEnd_le, ?_, hg.stop, hg.le, ?_⟩
  · intro q hq hqN hfree i hi
    rw [hcells q hq] at hfree
    have hqb : q ≠ b := by
      rintro rfl
      rw [hext] at hfree
      cases hfree
    have hout := hg.outside hB hb hext hq hqb
    rw [hw _ (by simp only [pageSize] at hi ⊢; omega)]
    exact hg.blank q hq hqN hfree i hi
  · intro q hq hqN hfree
    rw [hcells q hq] at hfree
    exact hg.first q hq hqN hfree

/-- The extents in use other than the one written to. -/
theorem Ground.inUse_other (hg : Ground m nf B) (hB : B b) (hb : b < pageCount)
    (hext : cell m b = .extent n) (hw : Within m m' b n) {c k : Nat} (hc : c ≠ b) :
    InUse m' B c k ↔ InUse m B c k := by
  have hhdr : B c → readHeader m' c = readHeader m c :=
    fun hcB => hw.readHeader (hg.outside hB hb hext hcB hc)
  constructor
  · rintro ⟨h1, h2, h3, h4⟩
    exact ⟨h1, h2, (cell_congr (hhdr h1)).symm.trans h3, (live_congr (hhdr h1)).mp h4⟩
  · rintro ⟨h1, h2, h3, h4⟩
    exact ⟨h1, h2, (cell_congr (hhdr h1)).trans h3, (live_congr (hhdr h1)).mpr h4⟩

/-- Writes to an extent in use that leave it in use. -/
theorem Layout.touch (hl : Layout m nf B) (huse : InUse m B b n) (hw : Within m m' b n)
    (hcell : cell m' b = .extent n) (hlive : Live m' b) :
    Layout m' nf B ∧ ∀ c k, InUse m' B c k ↔ InUse m B c k := by
  have hother : ∀ c k, InUse m' B c k ↔ InUse m B c k := by
    intro c k
    by_cases hc : c = b
    · subst hc
      constructor
      · rintro ⟨h1, h2, h3, -⟩
        rw [hcell, ← huse.extent] at h3
        exact ⟨h1, h2, h3, huse.live⟩
      · rintro ⟨h1, h2, h3, -⟩
        rw [huse.extent, ← hcell] at h3
        exact ⟨h1, h2, h3, hlive⟩
    · exact hl.toGround.inUse_other huse.stop huse.lt huse.extent hw hc
  refine ⟨⟨hl.toGround.touch huse.stop huse.lt huse.extent hw hcell, ?_⟩, hother⟩
  intro c k hc hcN hext hdead hreach d l huse' q h1 h2
  have hcb : c ≠ b := fun h => hdead (h ▸ hlive)
  have hhdr := hw.readHeader (hl.toGround.outside huse.stop huse.lt huse.extent hc hcb)
  rw [cell_congr hhdr] at hext
  rw [live_congr hhdr] at hdead
  exact hl.clear c k hc hcN hext hdead hreach d l ((hother d l).mp huse') q h1 h2

/-- Data written behind the header. -/
theorem Layout.data (hl : Layout m nf B) (huse : InUse m B b n) (hw : Within m m' b n)
    (hhdr : readHeader m' b = readHeader m b) :
    Layout m' nf B ∧ ∀ c k, InUse m' B c k ↔ InUse m B c k :=
  hl.touch huse hw ((cell_congr hhdr).trans huse.extent) ((live_congr hhdr).mpr huse.live)

/-! ## New extents -/

theorem cell_of_active {page : Nat} (h : (readHeader m page).active = true) :
    cell m page = .extent (readHeader m page).maxPages := by
  simp only [FileHeader.active, Bool.and_eq_true, Bool.not_eq_true'] at h
  simp only [cell, FileHeader.free, h.1.1, h.2, Bool.not_true, Bool.false_eq_true, if_false]

/-- The header of an extent in use, with more bits in it. -/
theorem Layout.rewrite (hl : Layout m nf B) (huse : InUse m B b n) {hdr : FileHeader}
    (hfits : hdr.Fits) (hon : (readHeader m b).Onto hdr.valid) (hmax : hdr.maxPages = n)
    (hactive : hdr.valid.active = true) :
    readHeader (writeHeader m hdr b) b = hdr.valid ∧ Layout (writeHeader m hdr b) nf B ∧
      ∀ c k, InUse (writeHeader m hdr b) B c k ↔ InUse m B c k := by
  have hn := (hl.tiled.extent b n huse.stop huse.lt huse.extent).1
  have hhdr := readHeader_writeHeader hfits hon
  have hlive : Live (writeHeader m hdr b) b := by
    rw [Live, hhdr]
    exact hactive
  have hcell : cell (writeHeader m hdr b) b = .extent n := by
    rw [cell_of_active hlive, hhdr, hmax]
  exact ⟨hhdr, hl.touch huse (within_writeHeader m hfits.name hn) hcell hlive⟩

theorem readHeader_blank {page : Nat} (h : Blank m page) : readHeader m page = FileHeader.blank := by
  have hword : ∀ i, i + 1 < pageSize → u16 m (pageSize * page + i) = 0 := by
    intro i hi
    rw [u16, Nat.add_assoc, h i (by omega), h (i + 1) hi]
    rfl
  have hname : m.read (pageSize * page + 10) 16 = List.replicate 16 0 := by
    apply List.ext_getElem (by simp)
    intro i h1 h2
    rw [Mem.length_read] at h1
    simp only [Mem.read, List.getElem_map, List.getElem_range, List.getElem_replicate]
    rw [Nat.add_assoc]
    exact h (10 + i) (by simp only [pageSize]; omega)
  have h0 := hword 0 (by decide)
  rw [Nat.add_zero] at h0
  simp only [readHeader, FileHeader.blank, FileHeader.mk.injEq]
  exact ⟨h0, hword 2 (by decide), hword 4 (by decide), hword 6 (by decide), h 8 (by decide),
    h 9 (by decide), hname⟩

theorem FileHeader.onto_blank (hdr : FileHeader) : FileHeader.blank.Onto hdr where
  logPage := .inl rfl
  logRecords := .inl rfl
  logRecordSize := .inl rfl
  maxPages := .inl rfl
  deprecatedEofHint := UInt8.zero_or
  flags := UInt8.zero_or
  name := by
    intro i hi
    have h0 : FileHeader.blank.name.getD i 0 = 0 := by
      simp only [FileHeader.blank, List.getD_eq_getElem?_getD, List.getElem?_replicate, if_pos hi,
        Option.getD_some]
    rw [h0, UInt8.zero_or]

theorem Layout.alloc (hl : Layout m nf B) {start : Nat}
    (hroom : Room sectorEnd pageCount pagesPerSector (cell m) B start n) {hdr : FileHeader}
    (hfits : hdr.Fits) (hmax : hdr.maxPages = n)
    (hactive : hdr.valid.active = true) :
    readHeader (writeHeader m hdr start) start = hdr.valid ∧
      Layout (writeHeader m hdr start) (if start = nf then start + n else nf)
        (Lib.Stops.alloc B start n) ∧
      ∀ b k, InUse (writeHeader m hdr start) (Lib.Stops.alloc B start n) b k ↔
        (b = start ∧ k = n) ∨ InUse m B b k := by
  have hpos := hroom.pos
  have hle := hroom.le
  obtain ⟨hB, hfree⟩ := hroom.free start le_rfl (by omega)
  have hblank := hl.blank start hB (by omega) hfree
  have hhdr : readHeader (writeHeader m hdr start) start =
      hdr.valid := by
    refine readHeader_writeHeader hfits ?_
    rw [readHeader_blank hblank]
    exact FileHeader.onto_blank _
  have hlive : Live (writeHeader m hdr start) start := by
    rw [Live, hhdr]
    exact hactive
  have hcell : cell (writeHeader m hdr start) start = .extent n := by
    rw [cell_of_active hlive, hhdr, hmax]
  have hw : Within m (writeHeader m hdr start) start 1 := within_writeHeader m hfits.name le_rfl
  have hother : ∀ q, ¬ (start ≤ q ∧ q < start + n) →
      readHeader (writeHeader m hdr start) q = readHeader m q :=
    fun q hq => hw.readHeader (by omega)
  have hcells : ∀ q, B q → q < pageCount → ¬ (start ≤ q ∧ q < start + n) →
      cell (writeHeader m hdr start) q = cell m q := fun q _ _ hq => cell_congr (hother q hq)
  have hlives : ∀ q, B q → q < pageCount → ¬ (start ≤ q ∧ q < start + n) →
      (Live (writeHeader m hdr start) q ↔ Live m q) := fun q _ _ hq => live_congr (hother q hq)
  -- a page that is free now was free, and lies outside
  have hold : ∀ q, Lib.Stops.alloc B start n q → cell (writeHeader m hdr start) q = .free →
      ¬ (start ≤ q ∧ q < start + n) ∧ cell m q = .free := by
    rintro q ⟨_, hout⟩ hq
    have hqs : q ≠ start := by
      rintro rfl
      rw [hcell] at hq
      cases hq
    exact ⟨by omega, (cell_congr (hother q (by omega))).symm.trans hq⟩
  refine ⟨hhdr, ⟨⟨?_, ?_, ?_, ?_, ?_⟩, ?_⟩, ?_⟩
  · exact hroom.alloc sectors_sectorEnd hl.tiled sectorEnd_le hcell hcells
  · intro q hq hqN hqfree i hi
    obtain ⟨hout, hqold⟩ := hold q hq hqfree
    rw [hw _ (by simp only [pageSize] at hi ⊢; omega)]
    exact hl.blank q hq.1 hqN hqold i hi
  · split
    · exact ⟨hroom.stop_end sectors_sectorEnd hl.tiled, by omega⟩
    · have := hl.first start hB (by omega) hfree
      exact ⟨hl.stop, by omega⟩
  · have := hl.le
    split <;> omega
  · intro q hq hqN hqfree
    obtain ⟨hout, hqold⟩ := hold q hq hqfree
    have := hl.first q hq.1 hqN hqold
    split <;> omega
  · exact hroom.clear_alloc sectors_sectorEnd hl.tiled hcell hcells hlive hlives hl.clear
  · exact hroom.liveAt_alloc hcell hcells hlive hlives

theorem length_storedName (name : List UInt8) : (storedName name).length = 16 := by
  simp only [storedName, List.length_append, List.length_take, List.length_replicate,
    List.length_singleton]
  omega

theorem fits_reservedHeader (name : List UInt8) {pages : Nat} (flags : UInt8) (h : pages < 65536) :
    (reservedHeader name pages flags).Fits :=
  ⟨Nat.zero_lt_succ _, Nat.zero_lt_succ _, Nat.zero_lt_succ _, h, length_storedName name⟩

/-- The flags of a new extent. -/
theorem check_reserved (name : List UInt8) (pages : Nat) (flags flag : UInt8) :
    (reservedHeader name pages flags).valid.check flag =
      decide ((hdrFlagAllocated ||| flags ||| hdrFlagValid) &&& flag ≠ 0) := rfl

theorem active_reserved (name : List UInt8) (pages : Nat) {flags : UInt8}
    (h : flags = 0 ∨ flags = hdrFlagLog) : (reservedHeader name pages flags).valid.active = true := by
  simp only [FileHeader.active, check_reserved]
  rcases h with rfl | rfl <;> decide

/-- A header that was written stays the same when it is written again. -/
theorem FileHeader.valid_valid (hdr : FileHeader) : hdr.valid.valid = hdr.valid := by
  simp only [FileHeader.valid, UInt8.or_assoc, UInt8.or_self]

/-! ## `reserve` -/

/-- The file in slot `i` is the new extent at `start`, with the header `hdr`. -/
structure Reserved (fs fs' : Fs) (B B' : Nat → Prop) (hdr : FileHeader) (i start : Nat) : Prop where
  slot : i < maxOpenFiles ∧ (fs.files i).free = true
  files : fs'.files = Function.update fs.files i
    { page := start
      fileEnd := 0
      maxPages := hdr.maxPages
      recordCount := -1
      references := (fs.files i).references
      modified := hdr.check hdrFlagModified }
  fds : fs'.fds = fs.fds
  layout : Layout fs'.flash fs'.nextFree B'
  inUse : ∀ b n, InUse fs'.flash B' b n ↔ (b = start ∧ n = hdr.maxPages) ∨ InUse fs.flash B b n
  fresh : ∀ n, ¬ InUse fs.flash B start n
  bytes : Preserved fs.flash fs'.flash B
  header : readHeader fs'.flash start = hdr.valid
  blank : ∀ i, 256 * start + 26 ≤ i → i < 256 * (start + hdr.maxPages) → fs'.flash i = 0
  apart : ∀ b n, InUse fs.flash B b n → sectorEnd b < b + n →
    ∀ q, start ≤ q → q < start + hdr.maxPages → sectorEnd q ≠ sectorEnd b

variable {fs fs' fs'' : Fs} {B' B'' : Nat → Prop} {hdr : FileHeader} {i start : Nat}

theorem Kept.reserved (hk : Kept fs fs' B B') (h : Reserved fs' fs'' B' B'' hdr i start) :
    Reserved fs fs'' B B'' hdr i start where
  slot := by
    rw [← hk.files]
    exact h.slot
  files := by
    rw [h.files, hk.files]
  fds := h.fds.trans hk.fds
  layout := h.layout
  inUse := by
    intro b n
    rw [h.inUse, hk.inUse]
  fresh := by
    intro n huse
    exact h.fresh n ((hk.inUse start n).mpr huse)
  bytes := by
    intro b n huse i h1 h2
    exact (h.bytes b n ((hk.inUse b n).mpr huse) i h1 h2).trans (hk.bytes b n huse i h1 h2)
  header := h.header
  blank := h.blank
  apart := fun b n huse => h.apart b n ((hk.inUse b n).mpr huse)

theorem loadSlot_of_free {files : Nat → File} (h : ∃ i, i < maxOpenFiles ∧ (files i).free = true) :
    ∃ i, loadSlot files = some i ∧ i < maxOpenFiles ∧ (files i).free = true := by
  obtain ⟨i, hi, hfree⟩ := h
  obtain ⟨j, hj⟩ := Option.isSome_iff_exists.mp
    (List.find?_isSome (p := fun i => (files i).free) |>.mpr ⟨i, List.mem_range.mpr hi, hfree⟩)
  refine ⟨j, ?_, List.mem_range.mp (List.mem_of_find?_eq_some hj), ?_⟩
  · simp only [loadSlot, hj]
  · exact List.find?_some (p := fun i => (files i).free) hj

/-- `load_file` with a free slot. -/
theorem loadFile_ends {hdr : FileHeader} {start : Nat}
    (hslot : ∃ i, i < maxOpenFiles ∧ (fs.files i).free = true) :
    Ends (loadFile start hdr) fs fun r fs' => ∃ i, r = some i ∧
      (i < maxOpenFiles ∧ (fs.files i).free = true) ∧
      fs' = fs.setFile i
        { page := start
          fileEnd := -1
          maxPages := hdr.maxPages
          modified := hdr.check hdrFlagModified
          recordCount := -1
          references := (fs.files i).references } := by
  obtain ⟨i, hload, hi, hfree⟩ := loadSlot_of_free hslot
  unfold loadFile
  refine Ends.load ?_
  rw [hload]
  exact Ends.update (Ends.ret ⟨i, rfl, ⟨hi, hfree⟩, rfl⟩)

theorem reserveAt_ends (hl : Layout fs.flash fs.nextFree B) {name : List UInt8} {pages : Nat}
    {flags : UInt8} (hroom : Room sectorEnd pageCount pagesPerSector (cell fs.flash) B start pages)
    (hactive : (reservedHeader name pages flags).valid.active = true)
    (hslot : ∃ i, i < maxOpenFiles ∧ (fs.files i).free = true) :
    Ends (reserveAt name pages flags start) (fs.take start pages) fun r fs' => ∃ i B', r = some i ∧
      Reserved fs fs' B B' (reservedHeader name pages flags) i start := by
  have hbound : pages < 256 := hroom.bound
  have hpos := hroom.pos
  have hfits : (reservedHeader name pages flags).Fits := fits_reservedHeader name flags (by omega)
  obtain ⟨hhdr, hl', huse⟩ := hl.alloc hroom hfits rfl hactive
  have hw : Within fs.flash (writeHeader fs.flash (reservedHeader name pages flags) start) start 1 :=
    within_writeHeader _ hfits.name le_rfl
  have hnew := hroom.free start le_rfl (by omega)
  unfold reserveAt
  refine Ends.update (Ends.seq (loadFile_ends hslot) ?_)
  rintro _ _ ⟨i, rfl, hi, rfl⟩
  refine Ends.update (Ends.ret ⟨i, _, rfl, hi, ?_, rfl, hl', huse, ?_, ?_, hhdr, ?_, ?_⟩)
  · simp only [Fs.setFile, Function.update_self, Function.update_idem]
    rfl
  · intro n huse'
    rw [huse'.extent] at hnew
    cases hnew.2
  · intro b n huse' i h1 h2
    have hb : ¬ (b ≤ start ∧ start < b + n) := by
      rintro ⟨h3, h4⟩
      rcases Nat.lt_or_eq_of_le h3 with hlt | rfl
      · exact (hl.tiled.extent b n huse'.stop huse'.lt huse'.extent).2.2.2 start hlt h4 hnew.1
      · rw [huse'.extent] at hnew
        cases hnew.2
    exact hw i (by omega)
  · intro i h1 h2
    have hmax : (reservedHeader name pages flags).maxPages = pages := rfl
    obtain ⟨hB, hfree⟩ := hroom.free (i / 256) (by omega) (by omega)
    have hle := hroom.le
    have hzero := hl.blank (i / 256) hB (by omega) hfree (i % 256) (Nat.mod_lt i (by decide))
    have hpage : pageSize * (i / 256) + i % 256 = i := Nat.div_add_mod i 256
    rw [hpage] at hzero
    exact (writeHeader_other hfits.name (.inr h1)).trans hzero
  · intro b n huse' hreach q h1 h2
    exact hroom.avoids sectors_sectorEnd hl.tiled huse'.stop huse'.lt huse'.extent hreach h1 h2

/-- `reserve` makes a new file, or leaves the files as they are. -/
theorem reserve_ends (hl : Layout fs.flash fs.nextFree B) {name : List UInt8} {pages : Nat}
    {flags : UInt8} (h1 : 1 ≤ pages) (h2 : pages < pagesPerSector)
    (hactive : (reservedHeader name pages flags).valid.active = true)
    (hslot : ∃ i, i < maxOpenFiles ∧ (fs.files i).free = true) :
    Ends (reserve name pages flags) fs fun r fs' => ∃ B',
      match r with
      | none => Layout fs'.flash fs'.nextFree B' ∧ Kept fs fs' B B'
      | some i => ∃ start, Reserved fs fs' B B' (reservedHeader name pages flags) i start := by
  unfold reserve
  refine Ends.seq (findContiguousPages_ends hl h1 h2) ?_
  rintro (_ | start) fs1 hfind
  · obtain rfl := hfind
    refine Ends.load ?_
    split
    · exact Ends.ret ⟨B, hl, .refl _ B⟩
    · refine Ends.seq (collectGarbage_ends hl) ?_
      rintro _ fs2 ⟨B1, hl1, hk⟩
      refine Ends.seq (findContiguousPages_ends hl1 h1 h2) ?_
      rintro (_ | start) fs3 hfind
      · obtain rfl := hfind
        exact Ends.update (Ends.ret ⟨B1, hl1, hk.files, hk.fds, hk.inUse, hk.bytes⟩)
      · obtain ⟨rfl, hroom⟩ := hfind
        refine (reserveAt_ends hl1 hroom hactive (by rw [hk.files]; exact hslot)).mono ?_
        rintro _ fs' ⟨i, B', rfl, hres⟩
        exact ⟨B', start, hk.reserved hres⟩
  · obtain ⟨rfl, hroom⟩ := hfind
    refine (reserveAt_ends hl hroom hactive hslot).mono ?_
    rintro _ fs' ⟨i, B', rfl, hres⟩
    exact ⟨B', start, hres⟩

/-! ## Extents that are given up -/

/-- The header at `page` marked obsolete. -/
def retired (m : Mem) (page : Nat) : Mem :=
  writeHeader m
    { readHeader m page with flags := (readHeader m page).flags ||| hdrFlagObsolete } page

theorem FileHeader.onto_or (hdr : FileHeader) (flags : UInt8) :
    hdr.Onto { hdr with flags := hdr.flags ||| flags } where
  logPage := .inr rfl
  logRecords := .inr rfl
  logRecordSize := .inr rfl
  maxPages := .inr rfl
  deprecatedEofHint := UInt8.or_self
  flags := by rw [← UInt8.or_assoc, UInt8.or_self]
  name := fun _ _ => UInt8.or_self

theorem readHeader_retired (m : Mem) (page : Nat) : readHeader (retired m page) page =
    { readHeader m page with
      flags := (readHeader m page).flags ||| (hdrFlagObsolete ||| hdrFlagValid) } := by
  have hfits := fits_readHeader m page
  have hon := (readHeader m page).onto_or (hdrFlagObsolete ||| hdrFlagValid)
  rw [← UInt8.or_assoc] at hon ⊢
  exact readHeader_writeHeader
    ⟨hfits.logPage, hfits.logRecords, hfits.logRecordSize, hfits.maxPages, hfits.name⟩ hon

theorem within_retired (m : Mem) (page : Nat) : Within m (retired m page) page 1 :=
  within_writeHeader m (fits_readHeader m page).name le_rfl

theorem cell_retired {page : Nat} (h : cell m page = .extent n) :
    cell (retired m page) page = .extent n := by
  obtain ⟨hmax, hiso, -⟩ := extent_flags h
  have hfree : (readHeader m page).check hdrFlagAllocated = true := by
    by_contra hno
    rw [(free_iff m page).mp (by simpa [FileHeader.free] using hno)] at h
    cases h
  have hfree' : (readHeader (retired m page) page).check hdrFlagAllocated = true := by
    rw [readHeader_retired, check_or, hfree, Bool.true_or]
  have hiso' : (readHeader (retired m page) page).check hdrFlagIsolated = false := by
    rw [readHeader_retired, check_or, hiso]
    rfl
  have hmax' : (readHeader (retired m page) page).maxPages = n := by
    rw [readHeader_retired, ← hmax]
  unfold cell
  dsimp only
  rw [FileHeader.free, hfree', hiso', hmax', Bool.not_true, if_neg Bool.false_ne_true,
    if_neg Bool.false_ne_true]

theorem not_live_retired (m : Mem) (page : Nat) : ¬ Live (retired m page) page := by
  have hobs : (readHeader (retired m page) page).check hdrFlagObsolete = true := by
    rw [readHeader_retired, check_or, decide_eq_true (by decide), Bool.or_true]
  rw [Live, FileHeader.active, hobs, Bool.not_true, Bool.and_false, Bool.false_and]
  exact Bool.false_ne_true

theorem Ground.retire (hg : Ground m nf B) (huse : InUse m B b n) : Ground (retired m b) nf B ∧
    (∀ q, B q → cell (retired m b) q = cell m q) ∧
    ∀ c k, InUse (retired m b) B c k ↔ InUse m B c k ∧ c ≠ b := by
  have hn := (hg.tiled.extent b n huse.stop huse.lt huse.extent).1
  have hw : Within m (retired m b) b n := by
    intro i hi
    exact within_retired m b i (by omega)
  have hcell := cell_retired huse.extent
  refine ⟨hg.touch huse.stop huse.lt huse.extent hw hcell,
    fun q hq => hg.cell_touch huse.stop huse.lt huse.extent hw hcell hq, ?_⟩
  intro c k
  constructor
  · intro hc
    have hcb : c ≠ b := by
      rintro rfl
      exact not_live_retired m c hc.live
    exact ⟨(hg.inUse_other huse.stop huse.lt huse.extent hw hcb).mp hc, hcb⟩
  · rintro ⟨hc, hcb⟩
    exact (hg.inUse_other huse.stop huse.lt huse.extent hw hcb).mpr hc

/-- Giving up one extent does not touch another. -/
theorem Ground.retired_other (hg : Ground m nf B) (hB : B b) (hne : b ≠ q) (hq : B q)
    (hqN : q < pageCount) {k : Nat} (hext : cell m q = .extent k) {i : Nat} (h1 : 256 * q ≤ i)
    (h2 : i < 256 * (q + k)) : retired m b i = m i := by
  have hout := hg.outside hq hqN hext hB hne
  exact within_retired m b i (by omega)

/-- Extents were given up that have no neighbour in use where they reach out of their sector. -/
theorem Layout.retire (hl : Layout m nf B) (hg : Ground m' nf B)
    (hcell : ∀ b, B b → cell m' b = cell m b)
    (hsub : ∀ c k, InUse m' B c k → InUse m B c k)
    (hapart : ∀ b n, InUse m B b n → ¬ Live m' b → sectorEnd b < b + n → ∀ c k, InUse m' B c k →
      ∀ q, c ≤ q → q < c + k → sectorEnd q ≠ sectorEnd b) : Layout m' nf B := by
  refine ⟨hg, ?_⟩
  intro b n hB hb hext hdead hreach c k huse
  have hold := (hcell b hB).symm.trans hext
  by_cases hlive : Live m b
  · exact hapart b n ⟨hB, hb, hold, hlive⟩ hdead hreach c k huse
  · exact hl.clear b n hB hb hold hlive hreach c k (hsub c k huse)

end Adler.Coffee
