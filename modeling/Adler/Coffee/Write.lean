/-
  Writing through the micro log: `create_log`, one record of `write_log_page`, and `cfs_write` for a
  block of one region.

  * `createLog_ends`: the file gets an empty log.
  * `writeRecord_ends`: one more record, and readers see it.
  * `writeLogPage_ends`, `cfsWrite_ends`: a merge comes in between when the log is full, or when the
    file has to grow.
-/
import Adler.Coffee.Merge

namespace Adler.Coffee

open Lib (Mem Prog Ends Cell LiveAt)

variable {name : FileName} {fs fs' : Fs} {B : Nat → Prop} {s : Shape} {content : Mem}

/-! ## The log is created -/

/-- The header of a file whose log starts at `page`. -/
def FileHeader.withLog (hdr : FileHeader) (page : Nat) : FileHeader :=
  { hdr with
    flags := hdr.flags ||| hdrFlagModified
    logPage := page }

theorem check_withLog (hdr : FileHeader) (page : Nat) (flag : UInt8) :
    (hdr.withLog page).valid.check flag =
      (hdr.check flag || decide (hdrFlagModified &&& flag ≠ 0) || decide (hdrFlagValid &&& flag ≠ 0)) := by
  simp only [FileHeader.withLog, FileHeader.check, or_and_eq, ne_eq,
    UInt8.or_eq_zero_iff, not_and_or, Bool.decide_or]

theorem FileHeader.Fits.withLog {hdr : FileHeader} (h : hdr.Fits) {page : Nat} (hpage : page < 65536) :
    (hdr.withLog page).Fits :=
  ⟨hpage, h.logRecords, h.logRecordSize, h.maxPages, h.name⟩

theorem FileHeader.onto_withLog {hdr : FileHeader} (h : hdr.logPage = 0) (page : Nat) :
    hdr.Onto (hdr.withLog page).valid := by
  refine ⟨.inl h, .inr rfl, .inr rfl, .inr rfl, UInt8.or_self, ?_, fun _ _ => UInt8.or_self⟩
  simp only [FileHeader.withLog, ← UInt8.or_assoc, UInt8.or_self]

theorem active_withLog {hdr : FileHeader} (page : Nat) (h : hdr.active = true) :
    (hdr.withLog page).valid.active = true := by
  simp only [FileHeader.active, check_withLog] at h ⊢
  have h1 : decide (hdrFlagModified &&& hdrFlagObsolete ≠ 0) = false := by decide
  have h2 : decide (hdrFlagValid &&& hdrFlagObsolete ≠ 0) = false := by decide
  have h3 : decide (hdrFlagModified &&& hdrFlagIsolated ≠ 0) = false := by decide
  have h4 : decide (hdrFlagValid &&& hdrFlagIsolated ≠ 0) = false := by decide
  simp only [h1, h2, h3, h4, Bool.or_false, Bool.and_eq_true, Bool.not_eq_true', Bool.or_eq_true] at h ⊢
  exact ⟨⟨.inl (.inl h.1.1), h.1.2⟩, h.2⟩

theorem Titled.withLog {hdr : FileHeader} (h : Titled name hdr s) (g : LogShape) :
    Titled name (hdr.withLog g.page).valid { s with log := some g } where
  name := h.name
  standard := h.standard
  isLog := by
    have h1 : decide (hdrFlagModified &&& hdrFlagLog ≠ 0) = false := by decide
    have h2 : decide (hdrFlagValid &&& hdrFlagLog ≠ 0) = false := by decide
    rw [check_withLog, h.isLog, h1, h2]
    rfl
  modified := by
    have h1 : decide (hdrFlagModified &&& hdrFlagModified ≠ 0) = true := by decide
    rw [check_withLog, h1, Bool.or_true, Bool.true_or]
    rfl
  logPage := fun hnone => nomatch hnone

/-- The last steps of `create_log` for the file in slot `i`. -/
def Fs.attachLog (i logPage : Nat) (fs : Fs) : Fs :=
  (fs.setFlash (writeHeader fs.flash ((readHeader fs.flash (fs.files i).page).withLog logPage)
    (fs.files i).page)).setFile i { fs.files i with modified := true }

/-- The file with an empty log in slot `j`, at `start`. -/
theorem Holds.attached {B' : Nat → Prop} {j start : Nat} (h : Holds name fs B s)
    (hlog : s.log = none)
    (hr : Reserved fs fs' B B' (reservedHeader (storedName name.bytes) 5 hdrFlagLog) j start) :
    Carries name (fs'.attachLog s.slot start) B' { s with log := some ⟨j, start, 0⟩ } ∧
      ∀ off, off < s.size → (fs'.attachLog s.slot start).flash (absoluteOffset s.page off) =
        fs.flash (absoluteOffset s.page off) := by
  have hslot := h.slot_ne hr
  have hfile : fs'.files s.slot = fs.files s.slot := by
    rw [hr.files, Function.update_of_ne hslot]
  have hpage : (fs'.files s.slot).page = s.page := by
    rw [hfile]
    exact h.cached.page
  have hhdr : readHeader fs'.flash s.page = readHeader fs.flash s.page :=
    h.layout.readHeader_preserved h.inUse hr.bytes
  have huse : InUse fs'.flash B' s.page s.pages := (hr.inUse _ _).mpr (.inr h.inUse)
  have hnew : InUse fs'.flash B' start 5 := (hr.inUse _ _).mpr (.inl ⟨rfl, rfl⟩)
  have hne : start ≠ s.page := by
    rintro rfl
    exact hr.fresh _ h.inUse
  have hn := (hr.layout.tiled.extent _ _ huse.stop huse.lt huse.extent).1
  have hzero : (readHeader fs'.flash s.page).logPage = 0 := by
    rw [hhdr]
    exact h.titled.logPage hlog
  have hsmall : start < 65536 := hnew.lt.trans (by decide)
  have hflash : (fs'.attachLog s.slot start).flash =
      writeHeader fs'.flash ((readHeader fs'.flash s.page).withLog start) s.page := by
    rw [← hpage]
    rfl
  have hmax : (readHeader fs'.flash s.page).maxPages = s.pages := (extent_flags huse.extent).1
  obtain ⟨hhdr', hl, huse'⟩ := hr.layout.rewrite huse
    ((fits_readHeader fs'.flash s.page).withLog hsmall) (FileHeader.onto_withLog hzero start) hmax
    (active_withLog start huse.live)
  rw [← hflash] at hhdr' hl huse'
  have hw : Within fs'.flash (fs'.attachLog s.slot start).flash s.page s.pages := by
    rw [hflash]
    exact within_writeHeader _ (fits_readHeader fs'.flash s.page).name hn
  have hout := hr.layout.toGround.outside huse.stop huse.lt huse.extent hnew.stop hne
  have hbehind := hr.layout.toGround.outside hnew.stop hnew.lt hnew.extent huse.stop hne.symm
  have hempty : ∀ i, i < 1032 → (fs'.attachLog s.slot start).flash (absoluteOffset start i) = 0 := by
    intro i hi
    have hmaxLog : (reservedHeader (storedName name.bytes) 5 hdrFlagLog).maxPages = 5 := rfl
    simp only [absoluteOffset, headerSize, pageSize]
    rw [hw _ (by omega)]
    exact hr.blank _ (by omega) (by omega)
  have hself : (fs'.attachLog s.slot start).files s.slot =
      { fs.files s.slot with modified := true } := by
    rw [← hfile]
    exact Function.update_self ..
  have hother : ∀ i, i ≠ s.slot → (fs'.attachLog s.slot start).files i = fs'.files i :=
    fun i hi => Function.update_of_ne hi ..
  refine ⟨⟨hl, h.slot, ?_, (huse' _ _).mpr huse, h.pages, h.fits, ?_, ?_, ?_, ?_, ?_⟩, ?_⟩
  · rw [hself]
    exact ⟨h.cached.page, h.cached.maxPages, h.cached.fileEnd, rfl⟩
  · rw [hhdr', hhdr]
    exact h.titled.withLog ⟨j, start, 0⟩
  · rintro g ⟨⟩
    refine ⟨hslot.symm, Nat.zero_le 4, ?_, (huse' _ _).mpr hnew, ?_, ?_, ?_, ?_⟩
    · rw [hother j hslot.symm, hr.files, Function.update_self]
    · rw [hw.readHeader hout, hr.header, check_reserved]
      decide
    · rw [hhdr']
      rfl
    · exact fun i _ h2 => hempty i (by omega)
    · exact fun i _ h2 => hempty (8 + i) (by omega)
  · intro b n hb
    rcases (hr.inUse b n).mp ((huse' b n).mp hb) with ⟨rfl, -⟩ | hold
    · exact .inr ⟨_, rfl, rfl⟩
    · obtain hb | ⟨g, hg, -⟩ := h.only b n hold
      · exact .inl hb
      · rw [hlog] at hg
        cases hg
  · intro i hi hne hlogNe
    have hij : i ≠ j := hlogNe _ rfl
    rw [hother i hne, hr.files, Function.update_of_ne hij]
    refine h.free i hi hne fun g hg => ?_
    rw [hlog] at hg
    cases hg
  · intro d hd hused
    have hfds : (fs'.attachLog s.slot start).fds = fs.fds := hr.fds
    rw [hfds] at hused ⊢
    exact h.fds d hd hused
  · intro off hoff
    have hfits := h.fits
    have hlen : ((readHeader fs'.flash s.page).withLog start).name.length = 16 :=
      (fits_readHeader fs'.flash s.page).name
    rw [hflash, writeHeader_other hlen]
    · exact hr.bytes.byte h.inUse (by omega)
    · right
      simp only [absoluteOffset]
      omega

/-- `create_log` gives the file an empty log, or leaves it as it is. -/
theorem createLog_ends (h : Holds name fs B s) (hshow : Shows fs s content) (hlog : s.log = none) :
    Ends (createLog s.slot (readHeader fs.flash s.page)) fs fun r fs' => ∃ B', fs'.fds = fs.fds ∧
      match r with
      | none => Holds name fs' B' s ∧ Shows fs' s content
      | some (page, hdr) => ∃ g, g.page = page ∧ g.records = 0 ∧ hdr.Standard ∧
          Carries name fs' B' { s with log := some g } ∧
          ∀ off, off < s.size → fs'.flash (absoluteOffset s.page off) = content off := by
  have hstd := h.titled.standard
  have hpages : pagesFor (4 * (2 + 256)) = 5 := rfl
  have hmod : (fs.files s.slot).modified = false := by
    rw [h.cached.modified, hlog]
    rfl
  unfold createLog
  rw [adjustLogConfig_standard hstd]
  dsimp only
  rw [hpages]
  refine Ends.seq (reserve_ends h.layout (by decide) (by decide) (active_reserved _ _ (.inr rfl))
    h.exists_free) ?_
  rintro (_ | j) fs1 ⟨B1, hres⟩
  · obtain ⟨hl, hk⟩ := hres
    exact Ends.ret ⟨B1, hk.fds, h.kept hk hl, h.shows_kept hk hshow⟩
  · obtain ⟨start, hr⟩ := hres
    rw [h.titled.name] at hr
    have hj : (fs1.files j).page = start := by rw [hr.files, Function.update_self]
    have hslot := h.slot_ne hr
    have hpage : (fs1.files s.slot).page = s.page := by
      rw [hr.files, Function.update_of_ne hslot]
      exact h.cached.page
    have hhdr := h.layout.readHeader_preserved h.inUse hr.bytes
    obtain ⟨hcarries, hdata⟩ := h.attached hlog hr
    have hstate : (fs1.setFlash (writeHeader fs1.flash
        ((readHeader fs.flash s.page).withLog start) (fs1.files s.slot).page)).setFile s.slot
          { fs1.files s.slot with modified := true } = fs1.attachLog s.slot start := by
      rw [Fs.attachLog, hpage, hhdr]
    rw [← hstate] at hcarries hdata
    refine Ends.load ?_
    rw [hj]
    refine Ends.update (Ends.update (Ends.ret ⟨B1, hr.fds, ⟨j, start, 0⟩, rfl, rfl, hstd, hcarries, ?_⟩))
    intro off hoff
    refine (hdata off hoff).trans ?_
    rw [← hshow off hoff, visible_unmodified hmod, h.cached.page]

/-! ## One record -/

/-- The flash with record `k` of the log at `page` written. -/
def recorded (m : Mem) (page k region : Nat) (buf : List UInt8) : Mem :=
  pwrite (pwrite m (absoluteOffset page (k * 2)) (u16Bytes (region + 1)))
    (absoluteOffset page (4 * 2 + k * 256)) buf

variable {m : Mem} {page k region : Nat} {buf : List UInt8}

theorem recorded_other (hbuf : buf.length = 256) {i : Nat}
    (h1 : i < absoluteOffset page (2 * k) ∨ absoluteOffset page (2 * k + 2) ≤ i)
    (h2 : i < absoluteOffset page (8 + 256 * k) ∨ absoluteOffset page (8 + 256 * k + 256) ≤ i) :
    recorded m page k region buf i = m i := by
  have hlen : (u16Bytes (region + 1)).length = 2 := rfl
  simp only [absoluteOffset] at h1 h2
  unfold recorded
  rw [pwrite_of_not_mem, pwrite_of_not_mem]
  · rw [hlen]
    simp only [absoluteOffset]
    omega
  · rw [hbuf]
    simp only [absoluteOffset]
    omega

/-- The other bytes of the log. -/
theorem recorded_offset (hbuf : buf.length = 256) {i : Nat} (h1 : i < 2 * k ∨ 2 * k + 2 ≤ i)
    (h2 : i < 8 + 256 * k ∨ 8 + 256 * k + 256 ≤ i) :
    recorded m page k region buf (absoluteOffset page i) = m (absoluteOffset page i) := by
  refine recorded_other hbuf ?_ ?_
  · simp only [absoluteOffset]
    omega
  · simp only [absoluteOffset]
    omega

/-- The index of the record. -/
theorem u16_recorded (hbuf : buf.length = 256) (hk : k < 4) (hregion : region < 65535)
    (hblank : ∀ i, 2 * k ≤ i → i < 2 * k + 2 → m (absoluteOffset page i) = 0) :
    u16 (recorded m page k region buf) (absoluteOffset page (2 * k)) = region + 1 := by
  have hlen : (u16Bytes (region + 1)).length = 2 := rfl
  have h0 := hblank (2 * k) le_rfl (by omega)
  have h1 := hblank (2 * k + 1) (by omega) (by omega)
  have hnext : absoluteOffset page (2 * k) + 1 = absoluteOffset page (2 * k + 1) := rfl
  have hold : u16 m (absoluteOffset page (2 * k)) = 0 := by
    rw [u16, hnext, h0, h1]
    rfl
  have hbyte : ∀ j, j < 2 → recorded m page k region buf (absoluteOffset page (2 * k) + j) =
      m (absoluteOffset page (2 * k) + j) ||| (u16Bytes (region + 1)).getD j 0 := by
    intro j hj
    have hidx : absoluteOffset page (2 * k) + j - absoluteOffset page (k * 2) = j := by
      simp only [absoluteOffset]
      omega
    unfold recorded
    rw [pwrite_of_not_mem, pwrite_of_mem, hidx]
    · simp only [absoluteOffset]
      omega
    · rw [hlen]
      simp only [absoluteOffset]
      omega
    · simp only [absoluteOffset]
      omega
  exact u16_or (by omega) (.inl hold) (hbyte 0 (by decide)) (hbyte 1 (by decide))

/-- The data of the record. -/
theorem recorded_data (hbuf : buf.length = 256) (hk : k < 4)
    (hblank : ∀ i, 256 * k ≤ i → i < 256 * k + 256 → m (absoluteOffset page (8 + i)) = 0) {j : Nat}
    (hj : j < 256) :
    recorded m page k region buf (absoluteOffset page (8 + 256 * k + j)) = buf.getD j 0 := by
  have hlen : (u16Bytes (region + 1)).length = 2 := rfl
  have hzero := hblank (256 * k + j) (by omega) (by omega)
  have hidx : absoluteOffset page (8 + 256 * k + j) - absoluteOffset page (4 * 2 + k * 256) = j := by
    simp only [absoluteOffset]
    omega
  rw [← Nat.add_assoc] at hzero
  unfold recorded
  rw [pwrite_of_mem, pwrite_of_not_mem, hzero, hidx, UInt8.zero_or]
  · rw [hlen]
    simp only [absoluteOffset]
    omega
  · simp only [absoluteOffset]
    omega
  · rw [hbuf]
    simp only [absoluteOffset]
    omega

/-- The state with one more record. -/
def Fs.record (i : Nat) (g : LogShape) (region : Nat) (buf : List UInt8) (fs : Fs) : Fs :=
  (fs.setFlash (recorded fs.flash g.page g.records region buf)).setFile i
    { fs.files i with recordCount := g.records + 1 }

variable {g : LogShape}

/-- The bytes of the file's extent are not those of its log. -/
theorem Carries.apart (h : Carries name fs B s) (hlog : s.log = some g) :
    s.page + s.pages ≤ g.page ∨ g.page + 5 ≤ s.page := by
  have hg := (h.logged g hlog).inUse
  have hne := h.page_ne hlog
  have h1 := h.layout.toGround.outside h.inUse.stop h.inUse.lt h.inUse.extent hg.stop hne
  have h2 := h.layout.toGround.outside hg.stop hg.lt hg.extent h.inUse.stop hne.symm
  omega

/-- The record is written within the log. -/
theorem recorded_outside (hk : k < 4) (hbuf : buf.length = 256) {i : Nat}
    (hi : i < absoluteOffset page 0 ∨ absoluteOffset page 1032 ≤ i) :
    recorded m page k region buf i = m i := by
  simp only [absoluteOffset] at hi
  refine recorded_other hbuf ?_ ?_
  · simp only [absoluteOffset]
    omega
  · simp only [absoluteOffset]
    omega

theorem readHeader_recorded (hk : k < 4) (hbuf : buf.length = 256) {q : Nat}
    (hq : q ≤ page ∨ page + 5 ≤ q) :
    readHeader (recorded m page k region buf) q = readHeader m q := by
  refine readHeader_congr fun i hi => recorded_outside hk hbuf ?_
  simp only [absoluteOffset, headerSize, pageSize] at hi ⊢
  omega

theorem Carries.readHeader_record (h : Carries name fs B s) (hlog : s.log = some g)
    (hk : g.records < 4) (hbuf : buf.length = 256) (region : Nat) :
    readHeader (recorded fs.flash g.page g.records region buf) s.page =
      readHeader fs.flash s.page := by
  have hn := (h.layout.tiled.extent _ _ h.inUse.stop h.inUse.lt h.inUse.extent).1
  have hapart := h.apart hlog
  exact readHeader_recorded hk hbuf (by omega)

/-- The record is data of the log's extent. -/
theorem Carries.layout_record (h : Carries name fs B s) (hlog : s.log = some g)
    (hk : g.records < 4) (hbuf : buf.length = 256) (region : Nat) :
    Layout (recorded fs.flash g.page g.records region buf) fs.nextFree B ∧
      ∀ c k, InUse (recorded fs.flash g.page g.records region buf) B c k ↔ InUse fs.flash B c k := by
  refine h.layout.data (h.logged g hlog).inUse (fun i hi => recorded_outside hk hbuf ?_)
    (readHeader_recorded hk hbuf (.inl le_rfl))
  simp only [absoluteOffset, headerSize, pageSize]
  omega

/-- The log has one more record, and is empty behind it. -/
theorem Carries.logged_record (h : Carries name fs B s) (hlog : s.log = some g)
    (hk : g.records < 4) (hbuf : buf.length = 256) :
    Logged (fs.record s.slot g region buf) B
      { s with log := some { g with records := g.records + 1 } }
      { g with records := g.records + 1 } := by
  have hg := h.logged g hlog
  obtain ⟨-, huse⟩ := h.layout_record hlog hk hbuf region
  refine ⟨hg.slot, hk, ?_, (huse _ _).mpr hg.inUse, ?_, ?_, ?_, ?_⟩
  · have hother : (fs.record s.slot g region buf).files g.slot = fs.files g.slot :=
      Function.update_of_ne hg.slot ..
    rw [hother]
    exact hg.file
  · have hhdr : readHeader (fs.record s.slot g region buf).flash g.page =
        readHeader fs.flash g.page := readHeader_recorded hk hbuf (.inl le_rfl)
    rw [hhdr]
    exact hg.isLog
  · have hhdr : readHeader (fs.record s.slot g region buf).flash s.page =
        readHeader fs.flash s.page := h.readHeader_record hlog hk hbuf region
    rw [hhdr]
    exact hg.header
  · intro i h1 h2
    dsimp only at h1
    exact (recorded_offset hbuf (by omega) (by omega)).trans (hg.index i (by omega) h2)
  · intro i h1 h2
    dsimp only at h1
    exact (recorded_offset hbuf (by omega) (by omega)).trans (hg.blank i (by omega) h2)

theorem Carries.holds_record (h : Carries name fs B s) (hlog : s.log = some g) (hk : g.records < 4)
    (hbuf : buf.length = 256) : Holds name (fs.record s.slot g region buf) B
      { s with log := some { g with records := g.records + 1 } } := by
  obtain ⟨hl, huse⟩ := h.layout_record hlog hk hbuf region
  have hself : (fs.record s.slot g region buf).files s.slot =
      { fs.files s.slot with recordCount := g.records + 1 } := Function.update_self ..
  have hothers : ∀ i, i ≠ s.slot → (fs.record s.slot g region buf).files i = fs.files i :=
    fun i hi => Function.update_of_ne hi ..
  refine ⟨⟨hl, h.slot, ?_, (huse _ _).mpr h.inUse, h.pages, h.fits, ?_, ?_, ?_, ?_, h.fds⟩, ?_⟩
  · rw [hself]
    refine ⟨h.cached.page, h.cached.maxPages, h.cached.fileEnd, ?_⟩
    have hmod := h.cached.modified
    rw [hlog] at hmod
    exact hmod
  · have hhdr : readHeader (fs.record s.slot g region buf).flash s.page = readHeader fs.flash s.page :=
      h.readHeader_record hlog hk hbuf region
    have hmod := h.titled.modified
    rw [hlog] at hmod
    rw [hhdr]
    exact ⟨h.titled.name, h.titled.standard, h.titled.isLog, hmod, fun hnone => nomatch hnone⟩
  · rintro _ ⟨⟩
    exact h.logged_record hlog hk hbuf
  · intro b n hb
    rcases h.only b n ((huse b n).mp hb) with hb | ⟨g', hg', hb⟩
    · exact .inl hb
    · rw [hlog] at hg'
      cases hg'
      exact .inr ⟨_, rfl, hb⟩
  · intro i hi hne hlogNe
    rw [hothers i hne]
    refine h.free i hi hne fun g' hg' => ?_
    rw [hlog] at hg'
    cases hg'
    exact hlogNe { g with records := g.records + 1 } rfl
  · rintro _ ⟨⟩
    rw [hself]
    rfl

/-- Readers see the record. -/
theorem Carries.visible_record (h : Carries name fs B s) (hlog : s.log = some g)
    (hk : g.records < 4) (hbuf : buf.length = 256) (hregion : region < 65535) {off : Nat}
    (hoff : off / 256 = region ∨ off < s.size) :
    visible (fs.record s.slot g region buf).flash ((fs.record s.slot g region buf).files s.slot) off =
      if off / 256 = region then buf.getD (off % 256) 0
      else visible fs.flash { fs.files s.slot with recordCount := g.records } off := by
  have hg := h.logged g hlog
  have hapart := h.apart hlog
  have hfits := h.fits
  have hhdr : readHeader (recorded fs.flash g.page g.records region buf) s.page =
      readHeader fs.flash s.page := h.readHeader_record hlog hk hbuf region
  have hmod : (fs.files s.slot).modified = true := by
    rw [h.cached.modified, hlog]
    rfl
  have hindex : u16 (recorded fs.flash g.page g.records region buf)
      (absoluteOffset g.page (2 * g.records)) = region + 1 :=
    u16_recorded hbuf hk hregion fun i h1 h2 => hg.index i h1 (by omega)
  have hnamed : named (recorded fs.flash g.page g.records region buf) g.page (off / 256) g.records =
      decide (off / 256 = region) := by
    rw [named, hindex, decide_eq_decide]
    omega
  have hold : getRecordIndex (recorded fs.flash g.page g.records region buf) g.page g.records
      (off / 256) = getRecordIndex fs.flash g.page g.records (off / 256) := by
    refine getRecordIndex_congr (by simp only [logTableLimit]; omega) fun i hi => ?_
    exact recorded_offset hbuf (by omega) (by omega)
  have hself : (fs.record s.slot g region buf).files s.slot =
      { fs.files s.slot with recordCount := g.records + 1 } := Function.update_self ..
  have hflash : (fs.record s.slot g region buf).flash =
      recorded fs.flash g.page g.records region buf := rfl
  have hcount : (g.records + 1 : Int).toNat = g.records + 1 := rfl
  rw [hself, hflash]
  unfold visible recordOf
  dsimp only
  rw [hmod, if_pos rfl, if_pos rfl, h.cached.page, hhdr, hg.header, hcount, Int.toNat_natCast,
    getRecordIndex_succ (by simp only [logTableLimit]; omega), hnamed, hold]
  by_cases hreg : off / 256 = region
  · rw [decide_eq_true hreg, if_pos rfl, if_pos hreg]
    exact recorded_data hbuf hk (fun i h1 h2 => hg.blank i h1 (by omega)) (Nat.mod_lt off (by decide))
  · rw [decide_eq_false hreg, if_neg Bool.false_ne_true, if_neg hreg]
    cases hidx : getRecordIndex fs.flash g.page g.records (off / 256) with
    | none =>
      refine recorded_outside hk hbuf ?_
      simp only [absoluteOffset, headerSize, pageSize]
      omega
    | some j =>
      have hj := getRecordIndex_lt (by simp only [logTableLimit]; omega) hidx
      exact recorded_offset hbuf (by omega) (by omega)

theorem writeRecord_ends {hdr : FileHeader} (hstd : hdr.Standard) (hbuf : buf.length = 256)
    (i : Nat) (g : LogShape) (region : Nat) :
    Ends (writeRecord i hdr g.page g.records region ⟨0, 256⟩ buf) fs fun r fs' =>
      r = 256 ∧ fs' = fs.record i g region buf := by
  have hcopy : List.take 0 (List.replicate 256 (0 : UInt8)) ++ buf.take 256 ++
      List.drop (0 + 256) (List.replicate 256 (0 : UInt8)) = buf := by
    rw [List.take_zero, List.nil_append, List.take_of_length_le hbuf.le,
      List.drop_of_length_le List.length_replicate.le, List.append_nil]
  unfold writeRecord
  rw [adjustLogConfig_standard hstd]
  refine Ends.load ?_
  dsimp only
  rw [if_neg (by omega), hcopy]
  exact Ends.update (Ends.update (Ends.update (Ends.ret ⟨rfl, rfl⟩)))

/-- Without records the extent is visible. -/
theorem Carries.visible_empty (h : Carries name fs B s) (hlog : s.log = some g) (hg : g.records = 0)
    (off : Nat) : visible fs.flash { fs.files s.slot with recordCount := g.records } off =
      fs.flash (absoluteOffset s.page off) := by
  have hmod : (fs.files s.slot).modified = true := by
    rw [h.cached.modified, hlog]
    rfl
  unfold visible recordOf
  dsimp only
  rw [hmod, if_pos rfl, hg, h.cached.page]
  rfl

/-! ## A block of one region -/

theorem copy_block (content : Mem) {p : Nat} (hbuf : buf.length = 256) (off : Nat) :
    Mem.copy content (256 * p) buf off =
      if off / 256 = p then buf.getD (off % 256) 0 else content off := by
  by_cases hp : off / 256 = p
  · have hidx : off - 256 * p = off % 256 := by omega
    rw [if_pos hp, Mem.copy_of_mem _ _ _ (by omega) (by omega), hidx]
  · rw [if_neg hp, Mem.copy_of_not_mem _ _ _ (by omega)]

/-- Readers see the block `p` written over `content`. -/
def Written (fs : Fs) (s : Shape) (content : Mem) (p : Nat) (buf : List UInt8) : Prop :=
  ∀ off, off / 256 = p ∨ off < s.size →
    visible fs.flash (fs.files s.slot) off = Mem.copy content (256 * p) buf off

/-- One more record is the block written over what readers saw. -/
theorem Carries.written_record (h : Carries name fs B s) (hlog : s.log = some g)
    (hk : g.records < 4) (hbuf : buf.length = 256) {p : Nat} (hp : p < 65535)
    (hold : ∀ off, off < s.size →
      visible fs.flash { fs.files s.slot with recordCount := g.records } off = content off) :
    Written (fs.record s.slot g p buf) s content p buf := by
  intro off hoff
  rw [copy_block content hbuf]
  refine (h.visible_record hlog hk hbuf hp hoff).trans ?_
  split
  · rfl
  · rename_i hreg
    exact hold off (hoff.resolve_left hreg)

/-- The outcomes of `write_log_page`: nothing is done, the log was merged, or a record was written. -/
theorem writeLogPage_ends (h : Holds name fs B s) (hshow : Shows fs s content) {p : Nat}
    (hp : 256 * p < s.size) (hbuf : buf.length = 256) :
    Ends (writeLogPage s.slot (256 * p) buf) fs fun r fs' => ∃ B' s', Holds name fs' B' s' ∧
      SameFds fs fs' ∧ s'.size = s.size ∧ s'.pages = s.pages ∧
      ((r = -1 ∧ Shows fs' s' content) ∨
        (r = 0 ∧ s.log.isSome ∧ s'.log = none ∧ Shows fs' s' content) ∨
        (r = 256 ∧ s'.slot = s.slot ∧ Written fs' s' content p buf)) := by
  have hstd := h.titled.standard
  have hfits := h.fits
  have hpages := h.pages
  have hblock : modifyLogBuffer 256 ⟨256 * p, buf.length⟩ = (p, ⟨0, 256⟩) := by
    simp only [modifyLogBuffer, hbuf, Nat.mul_mod_right, Nat.mul_div_cancel_left p (by decide : 0 < 256)]
    rfl
  unfold writeLogPage
  refine Ends.load ?_
  dsimp only
  rw [h.cached.page, adjustLogConfig_standard hstd]
  dsimp only
  rw [hblock, h.titled.modified]
  dsimp only
  cases hlog : s.log with
  | none =>
    rw [Option.isSome_none, if_neg Bool.false_ne_true]
    refine Ends.seq (createLog_ends h hshow hlog) ?_
    rintro (_ | ⟨page, hdr⟩) fs1 ⟨B1, hfds, hres⟩
    · refine Ends.ret ⟨B1, s, hres.1, ?_, rfl, rfl, .inl ⟨rfl, hres.2⟩⟩
      intro d _
      rw [hfds]
      exact ⟨rfl, fun _ => ⟨rfl, rfl⟩⟩
    · obtain ⟨g, rfl, hg, hstd1, hcarries, hdata⟩ := hres
      have hk : g.records < 4 := by omega
      have hwrite : Ends (writeRecord s.slot hdr g.page g.records p ⟨0, 256⟩ buf) fs1 fun r fs' =>
          r = 256 ∧ fs' = fs1.record s.slot g p buf := writeRecord_ends hstd1 hbuf s.slot g p
      rw [hg] at hwrite
      refine hwrite.mono ?_
      rintro _ _ ⟨rfl, rfl⟩
      refine ⟨B1, _, hcarries.holds_record rfl hk hbuf, ?_, rfl, rfl, .inr (.inr ⟨rfl, rfl, ?_⟩)⟩
      · intro d _
        rw [← hfds]
        exact ⟨rfl, fun _ => ⟨rfl, rfl⟩⟩
      · refine hcarries.written_record rfl hk hbuf (by omega) fun off hoff => ?_
        rw [hcarries.visible_empty rfl hg]
        exact hdata off hoff
  | some g =>
    have hg := h.logged g hlog
    have hcount := h.count g hlog
    have hnext : findNextRecord fs.flash (fs.files s.slot)
        (readHeader fs.flash s.page).logPage 4 = g.records := by
      rw [findNextRecord, hcount, if_pos (Int.natCast_nonneg _), Int.toNat_natCast]
    rw [Option.isSome_some, if_pos rfl, hnext, hg.header]
    by_cases hfull : g.records ≥ 4
    · rw [if_pos hfull]
      refine (mergeLog_ends h hshow (by rw [Nat.shiftLeft_zero]; exact hpages)).mono ?_
      rintro r fs' ⟨B', s', h', hshow', hfds, hsize, hr⟩
      refine ⟨B', s', h', hfds, hsize, ?_⟩
      rcases hr with ⟨rfl, rfl⟩ | ⟨rfl, hnone, hpages'⟩
      · exact ⟨rfl, .inl ⟨rfl, hshow'⟩⟩
      · rw [Nat.shiftLeft_zero] at hpages'
        exact ⟨hpages', .inr (.inl ⟨rfl, rfl, hnone, hshow'⟩)⟩
    · have hk : g.records < 4 := by omega
      have hsame : { fs.files s.slot with recordCount := (g.records : Int) } = fs.files s.slot := by
        rw [← hcount]
      rw [if_neg hfull]
      refine (writeRecord_ends hstd hbuf s.slot g p).mono ?_
      rintro _ _ ⟨rfl, rfl⟩
      refine ⟨B, _, h.toCarries.holds_record hlog hk hbuf, .refl _, rfl, rfl,
        .inr (.inr ⟨rfl, rfl, ?_⟩)⟩
      refine h.toCarries.written_record hlog hk hbuf (by omega) fun off hoff => ?_
      rw [hsame]
      exact hshow off hoff

/-! ## `cfs_write` -/

/-- Open descriptors stay open. -/
def SameFlags (fs fs' : Fs) : Prop := ∀ d, d < fdSetSize → (fs'.fds d).flags = (fs.fds d).flags ∧
  ((fs.fds d).flags ≠ 0 → (fs'.fds d).ioFlags = (fs.fds d).ioFlags)

theorem SameFds.sameFlags (h : SameFds fs fs') : SameFlags fs fs' :=
  fun d hd => ⟨(h d hd).1, fun hused => ((h d hd).2 hused).2⟩

theorem SameFlags.trans {fs'' : Fs} (h : SameFlags fs fs') (h' : SameFlags fs' fs'') :
    SameFlags fs fs'' := by
  intro d hd
  obtain ⟨h1, h2⟩ := h d hd
  obtain ⟨h3, h4⟩ := h' d hd
  exact ⟨h3.trans h1, fun hused => (h4 (h1 ▸ hused)).trans (h2 hused)⟩

variable {d : Nat}

/-- The state when descriptor `d` of the file in slot `i` is at `e`. -/
def Fs.advance (d i e : Nat) (fs : Fs) : Fs :=
  (fs.setFd d { fs.fds d with offset := e }).setFile i
    { fs.files i with fileEnd := max (fs.files i).fileEnd e }

theorem sameFlags_setFd (fs : Fs) (d e : Nat) :
    SameFlags fs (fs.setFd d { fs.fds d with offset := e }) := by
  intro d' _
  by_cases hdd : d' = d
  · subst hdd
    rw [Fs.fds_setFd_self]
    exact ⟨rfl, fun _ => rfl⟩
  · simp only [Fs.setFd, Function.update_of_ne hdd]
    exact ⟨trivial, fun _ => trivial⟩

theorem sameFlags_advance (fs : Fs) (d i e : Nat) : SameFlags fs (fs.advance d i e) :=
  sameFlags_setFd fs d e

/-- The file may have become longer. -/
theorem Holds.advance (h : Holds name fs B s) {e : Nat} (hfit : e + 26 ≤ 256 * s.pages) :
    Holds name (fs.advance d s.slot e) B { s with size := max s.size e } := by
  have hself : (fs.advance d s.slot e).files s.slot =
      { fs.files s.slot with fileEnd := max (fs.files s.slot).fileEnd e } := Function.update_self ..
  have hother : ∀ i, i ≠ s.slot → (fs.advance d s.slot e).files i = fs.files i :=
    fun i hi => Function.update_of_ne hi ..
  refine ⟨⟨h.layout, h.slot, ?_, h.inUse, h.pages, ?_, ?_, ?_, h.only, ?_, ?_⟩, ?_⟩
  · rw [hself]
    refine ⟨h.cached.page, h.cached.maxPages, ?_, h.cached.modified⟩
    dsimp only
    rw [h.cached.fileEnd]
    omega
  · have hfits := h.fits
    dsimp only
    omega
  · exact ⟨h.titled.name, h.titled.standard, h.titled.isLog, h.titled.modified, h.titled.logPage⟩
  · intro g hg
    have hlog := h.logged g hg
    refine ⟨hlog.slot, hlog.le, ?_, hlog.inUse, hlog.isLog, hlog.header, hlog.index, hlog.blank⟩
    rw [hother _ hlog.slot]
    exact hlog.file
  · intro i hi hne hlog
    rw [hother i hne]
    exact h.free i hi hne hlog
  · intro d' hd' hused
    by_cases hdd : d' = d
    · subst hdd
      simp only [Fs.advance, Fs.setFile, Fs.fds_setFd_self] at hused ⊢
      exact ⟨(h.fds d' hd' hused).1, Nat.le_max_right ..⟩
    · simp only [Fs.advance, Fs.setFile, Fs.setFd, Function.update_of_ne hdd] at hused ⊢
      obtain ⟨hfile, hoff⟩ := h.fds d' hd' hused
      exact ⟨hfile, hoff.trans (Nat.le_max_left ..)⟩
  · intro g hg
    rw [hself]
    exact h.count g hg

theorem Written.shows (h : Written fs s content k buf) (hk : 256 * k < s.size) :
    Shows (fs.advance d s.slot (256 * k + 256)) { s with size := max s.size (256 * k + 256) }
      (Mem.copy content (256 * k) buf) := by
  intro off hoff
  have hself : (fs.advance d s.slot (256 * k + 256)).files s.slot =
      { fs.files s.slot with fileEnd := max (fs.files s.slot).fileEnd (256 * k + 256 : Nat) } :=
    Function.update_self ..
  dsimp only at hoff ⊢
  rw [hself]
  exact h off (by omega)

/-- How the loop of `cfs_write` over the log ends. -/
structure LogWritten (name : FileName) (content : Mem) (p : Nat) (buf : List UInt8) (d : Nat)
    (fs : Fs) (s : Shape) (r : Bool) (fs' : Fs) (B' : Nat → Prop) (s' : Shape) : Prop where
  holds : Holds name fs' B' s'
  flags : SameFlags fs fs'
  shows' : Shows fs' s' (if r then Mem.copy content (256 * p) buf else content)
  size : s'.size = if r then max s.size (256 * p + 256) else s.size
  offset : r = true → (fs'.fds d).offset = 256 * p + 256

/-- The loop of `cfs_write` over the log: a merge, if the log is full, and one record. -/
theorem logLoop_ends {p : Nat} (hbuf : buf.length = 256) (hd : d < fdSetSize) (fuel : Nat) {fs : Fs}
    {B : Nat → Prop} {s : Shape} (h : Holds name fs B s) (hshow : Shows fs s content)
    (hp : 256 * p < s.size) (hfit : 256 * p + 256 + 26 ≤ 256 * s.pages)
    (hused : (fs.fds d).flags ≠ 0) (hoff : (fs.fds d).offset = 256 * p)
    (hfuel : (if s.log.isSome then 3 else 2) ≤ fuel) :
    Ends (logLoop d 256 fuel buf) fs fun r fs' => ∃ B' s',
      LogWritten name content p buf d fs s r fs' B' s' := by
  induction fuel generalizing fs B s with
  | zero => split at hfuel <;> omega
  | succ fuel ih =>
    obtain ⟨hfile, -⟩ := h.fds d hd hused
    have hne : ¬ buf.length = 0 := by omega
    unfold logLoop
    rw [if_neg hne]
    refine Ends.load ?_
    rw [hfile, hoff]
    refine Ends.seq (writeLogPage_ends h hshow hp hbuf) ?_
    rintro r fs1 ⟨B1, s1, h1, hfds, hsize, hpages, hr⟩
    obtain ⟨hflags1, hsame1⟩ := hfds d hd
    obtain ⟨hoff1, -⟩ := hsame1 hused
    rcases hr with ⟨rfl, hshow1⟩ | ⟨rfl, hsome, hnone, hshow1⟩ | ⟨rfl, hslot, hwritten⟩
    · rw [if_pos (by decide), hbuf]
      exact Ends.ret ⟨B1, s1, h1, hfds.sameFlags, hshow1, hsize, fun hr => nomatch hr⟩
    · rw [if_neg (by decide), if_pos rfl]
      rw [hsome, if_pos rfl] at hfuel
      refine (ih h1 hshow1 (by omega) (by omega) (hflags1 ▸ hused) (hoff1.trans hoff) ?_).mono ?_
      · rw [hnone, Option.isSome_none, if_neg Bool.false_ne_true]
        omega
      · rintro r fs' ⟨B', s', hw⟩
        refine ⟨B', s', hw.holds, hfds.sameFlags.trans hw.flags, hw.shows', ?_, hw.offset⟩
        rw [hw.size, hsize]
    · rw [if_neg (by decide), if_neg (by decide)]
      have hdrop : buf.drop (256 : Int).toNat = [] := List.drop_of_length_le hbuf.le
      refine Ends.update (Ends.update ?_)
      dsimp only
      rw [hdrop, hoff1, hoff, ← hslot]
      rw [Fs.fds_setFd_self]
      change Ends (logLoop d 256 fuel []) (fs1.advance d s1.slot (256 * p + 256)) _
      obtain ⟨n, rfl⟩ : ∃ n, fuel = n + 1 := ⟨fuel - 1, by split at hfuel <;> omega⟩
      unfold logLoop
      rw [if_pos List.length_nil]
      refine Ends.ret ⟨B1, _, h1.advance (by omega), ?_, ?_, ?_, fun _ => ?_⟩
      · exact hfds.sameFlags.trans (sameFlags_advance fs1 d s1.slot _)
      · exact hwritten.shows (by omega)
      · dsimp only
        rw [hsize, if_pos rfl]
      · simp only [Fs.advance, Fs.setFile, Fs.fds_setFd_self]

/-- The loop of `cfs_write` that extends the file: there is room for block `p` then. -/
theorem extendLoop_ends {p : Nat} (hp : p ≤ 16) (hd : d < fdSetSize) (fuel : Nat) {fs : Fs}
    {B : Nat → Prop} {s : Shape} (h : Holds name fs B s) (hshow : Shows fs s content)
    (hused : (fs.fds d).flags ≠ 0) (hoff : (fs.fds d).offset = 256 * p)
    (hfuel : (if s.pages = 17 then 2 else 1) ≤ fuel) :
    Ends (extendLoop d 256 fuel) fs fun r fs' => ∃ B' s', Holds name fs' B' s' ∧
      Shows fs' s' content ∧ SameFds fs fs' ∧ s'.size = s.size ∧
      (r = true → 256 * p + 256 + 26 ≤ 256 * s'.pages) := by
  induction fuel generalizing fs B s with
  | zero => split at hfuel <;> omega
  | succ fuel ih =>
    obtain ⟨hfile, -⟩ := h.fds d hd hused
    unfold extendLoop
    refine Ends.load ?_
    rw [hfile, hoff]
    dsimp only
    rw [h.cached.maxPages, h.cached.page]
    by_cases hfull : 256 + 256 * p + headerSize > pageSize * s.pages
    · -- only a file of 17 pages has to grow
      have hpages : s.pages = 17 := by
        have := h.pages
        simp only [headerSize, pageSize] at hfull
        omega
      rw [if_pos hfull]
      rw [if_pos hpages] at hfuel
      refine Ends.seq (mergeLog_ends h hshow (.inr (by rw [hpages]; rfl))) ?_
      rintro r fs1 ⟨B1, s1, h1, hshow1, hfds, hsize, hr⟩
      obtain ⟨hflags1, hsame1⟩ := hfds d hd
      rcases hr with ⟨rfl, rfl⟩ | ⟨rfl, -, hgrown⟩
      · rw [if_pos (by decide)]
        exact Ends.ret ⟨B1, s1, h1, hshow1, hfds, hsize, fun hr => nomatch hr⟩
      · have hpages1 : s1.pages = 34 := by rw [hgrown, hpages]; rfl
        rw [if_neg (by decide)]
        refine (ih h1 hshow1 (hflags1 ▸ hused) ((hsame1 hused).1.trans hoff) ?_).mono ?_
        · rw [hpages1, if_neg (by decide)]
          omega
        · rintro r fs' ⟨B', s', h', hshow', hfds', hsize', hr⟩
          exact ⟨B', s', h', hshow', hfds.trans hfds', hsize'.trans hsize, hr⟩
    · rw [if_neg hfull]
      simp only [headerSize, pageSize] at hfull
      exact Ends.ret ⟨B, s, h, hshow, .refl fs, rfl, fun _ => by omega⟩

/-- `cfs_write` of block `p`, which may move the file and fail. -/
theorem cfsWrite_ends {p : Nat} (h : Holds name fs B s) (hshow : Shows fs s content) (hp : p ≤ 16)
    (hlt : 256 * p < s.size) (hbuf : buf.length = 256) (hd : d < fdSetSize)
    (hflags : (fs.fds d).flags &&& flagWrite ≠ 0) (hio : (fs.fds d).ioFlags = 0)
    (hoff : (fs.fds d).offset = 256 * p) :
    Ends (cfsWrite d buf) fs fun r fs' => ∃ B' s', Holds name fs' B' s' ∧ SameFlags fs fs' ∧
      s.size ≤ s'.size ∧
      ((r = none ∧ Shows fs' s' content) ∨
        (r = some 256 ∧ Shows fs' s' (Mem.copy content (256 * p) buf) ∧
          256 * p + 256 ≤ s'.size)) := by
  have hused : (fs.fds d).flags ≠ 0 := ne_zero_of_and hflags
  have hvalid : fs.fdValid d = true := Fs.fdValid_iff.mpr ⟨hd, hused⟩
  unfold cfsWrite
  refine Ends.load ?_
  rw [hvalid, decide_eq_true hflags, Bool.true_and, Bool.not_true, if_neg Bool.false_ne_true, hio,
    UInt8.zero_and, if_pos rfl, hbuf]
  refine Ends.seq (extendLoop_ends hp hd 16 h hshow hused hoff (by split <;> omega)) ?_
  rintro fits fs1 ⟨B1, s1, h1, hshow1, hfds1, hsize1, hroom⟩
  obtain ⟨hflags1, hsame1⟩ := hfds1 d hd
  obtain ⟨hoff1, hio1⟩ := hsame1 hused
  have hused1 : (fs1.fds d).flags ≠ 0 := hflags1 ▸ hused
  obtain ⟨hfile1, -⟩ := h1.fds d hd hused1
  cases fits with
  | false => exact Ends.ret ⟨B1, s1, h1, hfds1.sameFlags, hsize1.ge, .inl ⟨rfl, hshow1⟩⟩
  | true =>
    have hbehind : ((fs1.fds d).offset : Int) < (fs1.files s1.slot).fileEnd := by
      rw [hoff1, hoff, h1.cached.fileEnd, hsize1]
      omega
    dsimp only
    rw [Bool.not_true, if_neg Bool.false_ne_true]
    refine Ends.load ?_
    rw [hfile1]
    dsimp only
    rw [hio1, hio, UInt8.zero_and, if_pos ⟨rfl, .inr hbehind⟩]
    refine Ends.seq (logLoop_ends hbuf hd (2 * 256 + 2) h1 hshow1 (by omega) (hroom rfl) hused1
      (hoff1.trans hoff) (by split <;> omega)) ?_
    rintro r fs2 ⟨B2, s2, hw⟩
    have hsize2 := hw.size
    have hshow2 := hw.shows'
    cases r with
    | false =>
      rw [Bool.not_false, if_pos rfl]
      rw [if_neg Bool.false_ne_true] at hsize2 hshow2
      exact Ends.ret ⟨B2, s2, hw.holds, hfds1.sameFlags.trans hw.flags, by omega, .inl ⟨rfl, hshow2⟩⟩
    | true =>
      rw [if_pos rfl] at hsize2 hshow2
      obtain ⟨hfile2, -⟩ := hw.holds.fds d hd ((hw.flags d hd).1 ▸ hused1)
      have hoff2 := hw.offset rfl
      have hend2 := hw.holds.cached.fileEnd
      have hmax : max (fs2.files s2.slot).fileEnd ((fs2.fds d).offset : Int) =
          (fs2.files s2.slot).fileEnd := by omega
      have hstay : fs2.setFile s2.slot { fs2.files s2.slot with
          fileEnd := max (fs2.files s2.slot).fileEnd ((fs2.fds d).offset : Int) } = fs2 := by
        rw [hmax, Fs.setFile, Function.update_eq_self]
      rw [Bool.not_true, if_neg Bool.false_ne_true]
      refine Ends.update ?_
      rw [hfile2]
      dsimp only
      rw [if_neg (by omega)]
      refine Ends.update ?_
      rw [hfile2]
      dsimp only
      rw [hstay]
      exact Ends.ret ⟨B2, s2, hw.holds, hfds1.sameFlags.trans hw.flags, by omega,
        .inr ⟨rfl, hshow2, by omega⟩⟩

end Adler.Coffee
