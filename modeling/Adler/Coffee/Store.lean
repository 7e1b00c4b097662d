/-
  The page store that Deluge sees: `write_page` and `read_page` on an open object, over Coffee.
  Between the calls the file is opened, read and closed through other descriptors.

  * `Store`, `Op`, `Step`: the file system and the data of the last `write_page` to each page.
  * `page_store`: `read_page` gives these data, and every call returns.
-/
import Adler.Coffee.Write
import Adler.Lib.Run

namespace Adler.Coffee

open Lib (Mem Prog Ends)

/-! ## The calls -/

/-- `write_page`; an `unsigned` has 16 bits. -/
def writePage (fd pagenum : Nat) (data : List UInt8) : Prog Fs Int := do
  let offset := pagenum * 256 % 65536
  let r ← cfsSeek fd offset .set
  if r ≠ some offset then return -1
  else
    match ← cfsWrite fd data with
    | none => return -1
    | some n => return n

/-- `read_page`; `none` is -1. -/
def readPage (fd pagenum : Nat) : Prog Fs (Option (List UInt8)) := do
  let offset := pagenum * 256 % 65536
  let r ← cfsSeek fd offset .set
  if r ≠ some offset then return none
  else cfsRead fd 256

/-- The start of the program: the flash is formatted, the file is made with `size` bytes, and
    `init_object` opens it. -/
def boot (name : List UInt8) (size : Nat) : Prog Fs (Option Nat) := do
  cfsCoffeeFormat
  match ← cfsOpen name flagWrite with
  | none => return none
  | some fd =>
    let _ ← cfsSeek fd size .set
    cfsOpen name (flagRead ||| flagWrite)

/-- The bytes of a page. -/
structure Block where
  bytes : List UInt8
  length_eq : bytes.length = 256

/-- What happens to the file. -/
inductive Op where
  | writePage (pagenum : Nat) (data : Block)
  | readPage (pagenum : Nat)
  | cfsOpen (flags : UInt8)
  | cfsRead (fd size : Nat)
  | cfsClose (fd : Nat)

/-- The file system, and the data of the last `write_page` to each page. -/
structure Store where
  fs : Fs
  pages : Nat → List UInt8

/-- Where one call leads; the object's descriptor is `fd`. -/
def next (name : FileName) (fd : Nat) : Op → Store → Option Store
  | .writePage pagenum data, st =>
    (writePage fd pagenum data.bytes st.fs).map fun (r, fs) =>
      { fs := fs
        pages := if r = 256 then Function.update st.pages pagenum data.bytes else st.pages }
  | .readPage pagenum, st =>
    (readPage fd pagenum st.fs).map fun (_, fs) => { st with fs := fs }
  | .cfsOpen flags, st => (cfsOpen name.bytes flags st.fs).map fun (_, fs) => { st with fs := fs }
  | .cfsRead fd' size, st => (cfsRead fd' size st.fs).map fun (_, fs) => { st with fs := fs }
  | .cfsClose fd', st => (cfsClose fd' st.fs).map fun (_, fs) => { st with fs := fs }

/-- The pages lie within the file, and the object stays open. -/
def Op.Allowed (size fd : Nat) : Op → Prop
  | .writePage pagenum _ => 256 * pagenum < size
  | .readPage pagenum => 256 * pagenum < size
  | .cfsOpen _ => True
  | .cfsRead _ _ => True
  | .cfsClose fd' => fd' ≠ fd

/-- The state after the start; nothing has been written. -/
def Started (name : FileName) (size fd : Nat) (st : Store) : Prop :=
  (∃ fs, boot name.bytes size fs = some (some fd, st.fs)) ∧
    st.pages = fun _ => List.replicate 256 0

/-- The states of all runs. -/
def Reached (name : FileName) (size fd : Nat) : Store → Prop :=
  Lib.Reach (Started name size fd) (fun op st st' => next name fd op st = some st')
    fun op _ => op.Allowed size fd

/-! ## The start -/

variable {name : FileName} {fs fs' : Fs} {B : Nat → Prop} {s : Shape} {content : Mem}

/-- A formatted flash, and empty tables. -/
structure Fresh (fs : Fs) : Prop where
  flash : ∀ i, i < sectorSize * sectorCount → fs.flash i = 0
  nextFree : fs.nextFree = 0
  files : ∀ i, (fs.files i).free = true
  fds : ∀ d, (fs.fds d).flags = 0 ∧ (fs.fds d).ioFlags = 0

theorem cfsCoffeeFormat_ends (fs : Fs) : Ends cfsCoffeeFormat fs fun _ fs' => Fresh fs' :=
  Ends.update_last ⟨fun _ hi => if_pos hi, rfl, fun _ => rfl, fun _ => ⟨rfl, rfl⟩⟩

theorem Fresh.blank (h : Fresh fs) {q : Nat} (hq : q < pageCount) : Blank fs.flash q := by
  intro i hi
  refine h.flash _ ?_
  simp only [pageSize, pageCount, sectorSize, sectorCount] at hi hq ⊢
  omega

theorem Fresh.layout (h : Fresh fs) : Layout fs.flash fs.nextFree fun q => q ≤ pageCount := by
  have hcell : ∀ q, q < pageCount → cell fs.flash q = .free := fun q hq => cell_of_blank (h.blank hq)
  refine ⟨⟨⟨Nat.zero_le _, ?_, ?_, ?_⟩, fun q _ hq _ => h.blank hq, ?_, ?_, ?_⟩, ?_⟩
  · intro b _ hb
    rw [hcell b hb]
    exact sectorEnd_le b hb
  · intro b _ hb _ q _ hq
    have hend := sectorEnd_le b hb
    exact ⟨by omega, hcell q (by omega)⟩
  · intro b n _ hb hext
    rw [hcell b hb] at hext
    cases hext
  · rw [h.nextFree]
    exact Nat.zero_le _
  · rw [h.nextFree]
    exact Nat.zero_le _
  · intro q _ _ _
    rw [h.nextFree]
    exact Nat.zero_le _
  · intro b n _ hb hext
    rw [hcell b hb] at hext
    cases hext

theorem Fresh.not_inUse (h : Fresh fs) {b n : Nat} : ¬ InUse fs.flash (fun q => q ≤ pageCount) b n := by
  intro huse
  have hcell := cell_of_blank (h.blank huse.lt)
  rw [huse.extent] at hcell
  cases hcell

/-- No file is found. -/
theorem scanFiles_fresh (h : Fresh fs) (nm : List UInt8) (fuel page : Nat) (hle : page ≤ pageCount)
    (hfuel : pageCount < page + fuel) :
    Ends (scanFiles nm fuel page) fs fun r fs' => r = none ∧ fs' = fs := by
  induction fuel generalizing page with
  | zero => omega
  | succ fuel ih =>
    unfold scanFiles
    by_cases hlt : page < pageCount
    · have hflags := flags_of_blank (h.blank hlt)
      have hnamed : (readHeader fs.flash page).named nm = false := by
        rw [FileHeader.named, FileHeader.active, check_of_flags hflags]
        rfl
      rw [if_pos hlt]
      refine Ends.load ?_
      dsimp only
      rw [hnamed, if_neg Bool.false_ne_true, nextFile_eq]
      have hlater := h.layout.tiled.lt_next sectors_sectorEnd hle hlt
      exact ih _ (h.layout.tiled.next_bound hle hlt sectorEnd_le) (by omega)
    · rw [if_neg hlt]
      exact Ends.ret ⟨rfl, rfl⟩

theorem findFile_fresh (h : Fresh fs) (nm : List UInt8) :
    Ends (findFile nm) fs fun r fs' => r = none ∧ fs' = fs := by
  have hcached : (List.range maxOpenFiles).find? (fs.caches nm) = none := by
    rw [List.find?_eq_none]
    intro i _
    rw [Fs.caches, h.files i, Bool.not_true, Bool.false_and]
    exact Bool.false_ne_true
  unfold findFile
  refine Ends.load ?_
  rw [hcached]
  exact scanFiles_fresh h nm (pageCount + 1) 0 (Nat.zero_le _) (by omega)

/-- The new file that `reserve` makes on a fresh flash. -/
theorem Fresh.holds {B' : Nat → Prop} {i start : Nat} {fs'' : Fs} (h : Fresh fs)
    (hr : Reserved fs fs' (fun q => q ≤ pageCount) B' (reservedHeader name.bytes 17 0) i start)
    (hs : SameStore fs' fs'')
    (hfds : ∀ d, d < fdSetSize → (fs''.fds d).flags ≠ 0 →
      (fs''.fds d).file = some i ∧ (fs''.fds d).offset = 0) :
    Holds name fs'' B' ⟨i, start, 17, 0, none⟩ ∧
      ∀ off, off + 26 < 256 * 17 → visible fs''.flash (fs''.files i) off = 0 := by
  obtain ⟨r, hfile⟩ := hs.files i
  rw [hr.files, Function.update_self] at hfile
  have hmod : (reservedHeader name.bytes 17 0).check hdrFlagModified = false := by
    have hflag : decide ((hdrFlagAllocated ||| 0) &&& hdrFlagModified ≠ 0) = false := by decide
    exact hflag
  rw [hmod] at hfile
  have hnew : ∀ b n, InUse fs'.flash B' b n ↔ b = start ∧ n = 17 := by
    intro b n
    rw [hr.inUse, or_iff_left h.not_inUse]
    rfl
  refine ⟨⟨⟨?_, hr.slot.1, ?_, ?_, .inl rfl, ?_, ?_, ?_, ?_, ?_, ?_⟩, ?_⟩, ?_⟩
  · rw [hs.flash, hs.nextFree]
    exact hr.layout
  · rw [hfile]
    exact ⟨rfl, rfl, rfl, rfl⟩
  · rw [hs.flash]
    exact (hnew start 17).mpr ⟨rfl, rfl⟩
  · dsimp only
    omega
  · rw [hs.flash]
    dsimp only
    rw [hr.header]
    exact titled_reserved rfl i start 17 0
  · intro g hg
    cases hg
  · intro b n hb
    rw [hs.flash] at hb
    exact .inl ((hnew b n).mp hb).1
  · intro j _ hj _
    obtain ⟨r', hfile'⟩ := hs.files j
    rw [hr.files, Function.update_of_ne hj] at hfile'
    rw [hfile']
    exact h.files j
  · intro d hd hused
    obtain ⟨h1, h2⟩ := hfds d hd hused
    exact ⟨h1, h2.le⟩
  · intro g hg
    cases hg
  · intro off hoff
    rw [hfile, visible_unmodified rfl, hs.flash]
    refine hr.blank _ ?_ ?_
    · simp only [absoluteOffset, headerSize, pageSize]
      omega
    · have hmax : (reservedHeader name.bytes 17 0).maxPages = 17 := rfl
      rw [hmax]
      simp only [absoluteOffset, headerSize, pageSize]
      omega

/-- The first `cfs_open` makes the file. -/
theorem cfsOpen_fresh (h : Fresh fs) (name : FileName) :
    Ends (cfsOpen name.bytes flagWrite) fs fun r fs' => ∀ d, r = some d →
      ∃ B i start, Holds name fs' B ⟨i, start, 17, 0, none⟩ ∧
        (∀ off, off + 26 < 256 * 17 → visible fs'.flash (fs'.files i) off = 0) ∧
        d < fdSetSize ∧ (fs'.fds d).flags = flagWrite ∧ ∀ d', (fs'.fds d').ioFlags = 0 := by
  have hd : getAvailableFd fs = some 0 := by
    simp only [getAvailableFd, (h.fds _).1]
    rfl
  have hfresh : Fresh (fs.setFd 0 { fs.fds 0 with file := none }) := by
    refine ⟨h.flash, h.nextFree, h.files, fun d => ?_⟩
    by_cases hd : d = 0
    · subst hd
      rw [Fs.fds_setFd_self]
      exact h.fds 0
    · simp only [Fs.setFd, Function.update_of_ne hd]
      exact h.fds d
  unfold cfsOpen
  refine Ends.load ?_
  rw [hd]
  dsimp only
  refine Ends.seq (findFile_fresh h name.bytes) ?_
  rintro _ fs1 ⟨rfl, hfs1⟩
  rw [hfs1]
  refine Ends.update ?_
  rw [if_neg (by decide)]
  refine Ends.seq (reserve_ends hfresh.layout (by decide) (by decide) (active_reserved _ _ (.inl rfl))
    ⟨0, by decide, hfresh.files 0⟩) ?_
  rintro (_ | i) fs2 ⟨B2, hres⟩
  · refine Ends.ret ?_
    intro d hd
    cases hd
  · obtain ⟨start, hr⟩ := hres
    have hfile := congrFun hr.files i
    rw [Function.update_self] at hfile
    have hstay : fs2.setFile i { fs2.files i with fileEnd := 0 } = fs2 := by
      have hsame : { fs2.files i with fileEnd := 0 } = fs2.files i := by rw [hfile]
      rw [hsame, Fs.setFile, Function.update_eq_self]
    dsimp only
    refine Ends.update ?_
    rw [hstay]
    refine (openFd_ends 0 i flagWrite fs2).mono ?_
    rintro _ fs3 ⟨rfl, hsame, hfds⟩ _ ⟨⟩
    have hopen : ∀ d, (fs3.fds d).flags ≠ 0 → d = 0 := by
      intro d hused
      by_contra hd
      rw [hfds, Function.update_of_ne hd, hr.fds] at hused
      exact hused (hfresh.fds d).1
    obtain ⟨hholds, hzero⟩ := hfresh.holds hr hsame fun d _ hused => by
      obtain rfl := hopen d hused
      rw [hfds, Function.update_self]
      refine ⟨rfl, ?_⟩
      dsimp only
      exact if_neg (by decide)
    refine ⟨B2, i, start, hholds, hzero, by decide, ?_, fun d => ?_⟩
    · rw [hfds, Function.update_self]
    · by_cases hd : d = 0
      · subst hd
        rw [hfds, Function.update_self, hr.fds]
        exact (hfresh.fds 0).2
      · rw [hfds, Function.update_of_ne hd, hr.fds]
        exact (hfresh.fds d).2

/-! ## `cfs_seek` -/

variable {d e : Nat}

/-- A seek to an offset that fits behind the header; the end of the file follows it. -/
theorem cfsSeek_ends (h : Holds name fs B s) (hd : d < fdSetSize) (hused : (fs.fds d).flags ≠ 0)
    (hfit : e + 26 ≤ 256 * s.pages) :
    Ends (cfsSeek d e .set) fs fun r fs' => r = some e ∧ fs' = fs.advance d s.slot e := by
  obtain ⟨hfile, -⟩ := h.fds d hd hused
  have hvalid : fs.fdValid d = true := Fs.fdValid_iff.mpr ⟨hd, hused⟩
  have hbound : ¬ ((e : Int) < 0 ∨ (e : Int) > (pageSize : Nat) * (fs.files s.slot).maxPages) := by
    rw [h.cached.maxPages]
    simp only [pageSize]
    omega
  unfold cfsSeek
  refine Ends.load ?_
  rw [hvalid, Bool.not_true, if_neg Bool.false_ne_true, hfile]
  dsimp only
  rw [if_neg hbound]
  refine Ends.update (Ends.update (Ends.ret ⟨rfl, ?_⟩))
  by_cases hgrow : (fs.files s.slot).fileEnd < e
  · have hmax : max (fs.files s.slot).fileEnd (e : Int) = e := by omega
    rw [if_pos hgrow, Fs.advance, hmax]
    rfl
  · have hmax : max (fs.files s.slot).fileEnd (e : Int) = (fs.files s.slot).fileEnd := by
      omega
    have hstay : fs.advance d s.slot e = fs.setFd d { fs.fds d with offset := e } := by
      rw [Fs.advance, hmax, Fs.setFile]
      exact congrArg (fun files => { fs.setFd d { fs.fds d with offset := e } with files := files })
        (Function.update_eq_self ..)
    rw [if_neg hgrow, hstay]
    rfl

theorem visible_advance (fs : Fs) (d i e off : Nat) :
    visible (fs.advance d i e).flash ((fs.advance d i e).files i) off =
      visible fs.flash (fs.files i) off := by
  have hself : (fs.advance d i e).files i =
      { fs.files i with fileEnd := max (fs.files i).fileEnd e } := Function.update_self ..
  rw [hself]
  rfl

/-! ## The runs -/

/-- The bytes of the pages, one after the other. -/
def contentOf (pages : Nat → List UInt8) : Mem := fun off => (pages (off / 256)).getD (off % 256) 0

theorem contentOf_zeros (off : Nat) : contentOf (fun _ => List.replicate 256 0) off = 0 := by
  simp only [contentOf, List.getD_eq_getElem?_getD, List.getElem?_replicate]
  split <;> rfl

/-- The file has at least `size` bytes, readers see the pages, and the object's descriptor is open. -/
structure Inv (name : FileName) (size fd : Nat) (st : Store) : Prop where
  shape : ∃ B s, Holds name st.fs B s ∧ Shows st.fs s (contentOf st.pages) ∧ size ≤ s.size
  open_ : fd < fdSetSize ∧ (st.fs.fds fd).flags = flagRead ||| flagWrite ∧ (st.fs.fds fd).ioFlags = 0
  blocks : ∀ p, (st.pages p).length = 256

theorem boot_inv (name : FileName) {size : Nat} (hsize : size ≤ 4326) (fs : Fs) :
    Ends (boot name.bytes size) fs fun r fs' => ∀ fd, r = some fd →
      Inv name size fd ⟨fs', fun _ => List.replicate 256 0⟩ := by
  unfold boot
  refine Ends.seq (cfsCoffeeFormat_ends fs) ?_
  rintro _ fs1 hfresh
  refine Ends.seq (cfsOpen_fresh hfresh name) ?_
  rintro (_ | d) fs2 hopen
  · exact Ends.ret fun fd hfd => nomatch hfd
  · obtain ⟨B, i, start, h, hzero, hd, hflags, hio⟩ := hopen d rfl
    have hused : (fs2.fds d).flags ≠ 0 := by
      rw [hflags]
      decide
    have hfit : size + 26 ≤ 256 * 17 := by omega
    refine Ends.seq (cfsSeek_ends h hd hused hfit) ?_
    rintro _ fs3 ⟨-, rfl⟩
    have h3 := h.advance (d := d) hfit
    have hshow : Shows (fs2.advance d i size) ⟨i, start, 17, max 0 size, none⟩
        (contentOf fun _ => List.replicate 256 0) := by
      intro off hoff
      dsimp only at hoff ⊢
      rw [visible_advance, hzero off (by omega), contentOf_zeros]
    refine (cfsOpen_ends h3 rfl (flagRead ||| flagWrite)).mono ?_
    rintro _ fs4 ⟨h4, hsame, hres⟩ fd rfl
    obtain ⟨hfd, -, desc, hfds, hflags4, -, hio4, -⟩ := hres
    have hio3 : ((fs2.advance d i size).fds fd).ioFlags = 0 := by
      by_cases hdd : fd = d
      · subst hdd
        simp only [Fs.advance, Fs.setFile, Fs.fds_setFd_self]
        exact hio fd
      · simp only [Fs.advance, Fs.setFile, Fs.setFd, Function.update_of_ne hdd]
        exact hio fd
    refine ⟨⟨B, _, h4, hshow.sameStore hsame, Nat.le_max_right ..⟩, ⟨hfd, ?_, ?_⟩,
      fun _ => List.length_replicate⟩
    · dsimp only
      rw [hfds, Function.update_self]
      exact hflags4
    · dsimp only
      rw [hfds, Function.update_self, hio4]
      exact hio3

variable {size fd : Nat} {st : Store}

theorem contentOf_update (pages : Nat → List UInt8) (p : Nat) (data : Block) :
    contentOf (Function.update pages p data.bytes) =
      Mem.copy (contentOf pages) (256 * p) data.bytes := by
  funext off
  rw [copy_block _ data.length_eq, contentOf]
  by_cases hp : off / 256 = p
  · rw [if_pos hp, hp, Function.update_self]
  · rw [if_neg hp, Function.update_of_ne hp]
    rfl

/-- The bytes of one page. -/
theorem read_contentOf (h : ∀ p, (st.pages p).length = 256) (p : Nat) :
    Mem.read (contentOf st.pages) (256 * p) 256 = st.pages p := by
  apply List.ext_getElem
  · rw [Mem.length_read, h p]
  · intro i h1 h2
    rw [Mem.length_read] at h1
    have hdiv : (256 * p + i) / 256 = p := by omega
    have hmod : (256 * p + i) % 256 = i := by omega
    simp only [Mem.read, List.getElem_map, List.getElem_range, contentOf, hdiv, hmod]
    rw [List.getD_eq_getElem?_getD, List.getElem?_eq_getElem h2, Option.getD_some]

theorem Inv.fd_used (h : Inv name size fd st) : (st.fs.fds fd).flags ≠ 0 := by
  rw [h.open_.2.1]
  decide

/-- The seek in `write_page` and `read_page`. -/
theorem Inv.seek (h : Inv name size fd st) {p : Nat} (hp : 256 * p < size) :
    Ends (cfsSeek fd (256 * p : Nat) .set) st.fs fun r fs' => r = some (256 * p) ∧
      Inv name size fd ⟨fs', st.pages⟩ ∧ (fs'.fds fd).offset = 256 * p := by
  obtain ⟨B, s, hs, hshow, hsize⟩ := h.shape
  have hfits := hs.fits
  have hfit : 256 * p + 26 ≤ 256 * s.pages := by omega
  have hmax : max s.size (256 * p) = s.size := by omega
  refine (cfsSeek_ends hs h.open_.1 h.fd_used hfit).mono ?_
  rintro _ _ ⟨rfl, rfl⟩
  have hs' := hs.advance (d := fd) hfit
  rw [hmax] at hs'
  have hself : (st.fs.advance fd s.slot (256 * p)).fds fd =
      { st.fs.fds fd with offset := 256 * p } := Fs.fds_setFd_self ..
  refine ⟨rfl, ⟨⟨B, s, hs', ?_, hsize⟩, ⟨h.open_.1, ?_, ?_⟩, h.blocks⟩, ?_⟩
  · intro off hoff
    rw [visible_advance]
    exact hshow off hoff
  · dsimp only
    rw [hself]
    exact h.open_.2.1
  · dsimp only
    rw [hself]
    exact h.open_.2.2
  · rw [hself]

/-- The invariant after a call that leaves the object's descriptor open. -/
theorem Inv.keep {fs' : Fs} {pages : Nat → List UInt8} (h : Inv name size fd st)
    (hfd : (fs'.fds fd).flags = (st.fs.fds fd).flags ∧
      ((st.fs.fds fd).flags ≠ 0 → (fs'.fds fd).ioFlags = (st.fs.fds fd).ioFlags))
    (hshape : ∃ B s, Holds name fs' B s ∧ Shows fs' s (contentOf pages) ∧ size ≤ s.size)
    (hblocks : ∀ p, (pages p).length = 256) : Inv name size fd ⟨fs', pages⟩ := by
  obtain ⟨hflags, hio⟩ := hfd
  refine ⟨hshape, ⟨h.open_.1, hflags.trans h.open_.2.1, ?_⟩, hblocks⟩
  exact (hio h.fd_used).trans h.open_.2.2

theorem Inv.writePage (h : Inv name size fd st) (hsize : size ≤ 4326) {p : Nat}
    (hp : 256 * p < size) (data : Block) :
    Ends (writePage fd p data.bytes) st.fs fun r fs' => Inv name size fd
      ⟨fs', if r = 256 then Function.update st.pages p data.bytes else st.pages⟩ := by
  have hoff : p * 256 % 65536 = 256 * p := by omega
  unfold Coffee.writePage
  dsimp only
  rw [hoff]
  refine Ends.seq (h.seek hp) ?_
  rintro _ fs1 ⟨rfl, h1, hoff1⟩
  rw [if_neg (not_not.mpr rfl)]
  obtain ⟨B, s, hs, hshow, hle⟩ := h1.shape
  have hwrite : (fs1.fds fd).flags &&& flagWrite ≠ 0 := by
    have hflags := h1.open_.2.1
    dsimp only at hflags
    rw [hflags]
    decide
  refine Ends.seq (cfsWrite_ends hs hshow (by omega) (by omega) data.length_eq h1.open_.1 hwrite
    h1.open_.2.2 hoff1) ?_
  rintro r fs2 ⟨B2, s2, hs2, hflags2, hsize2, hr⟩
  rcases hr with ⟨rfl, hshow2⟩ | ⟨rfl, hshow2, -⟩
  · refine Ends.ret (h1.keep (hflags2 fd h1.open_.1) ⟨B2, s2, hs2, ?_, hle.trans hsize2⟩ ?_)
    · rw [if_neg (by decide)]
      exact hshow2
    · rw [if_neg (by decide)]
      exact h.blocks
  · refine Ends.ret (h1.keep (hflags2 fd h1.open_.1) ⟨B2, s2, hs2, ?_, hle.trans hsize2⟩ ?_)
    · rw [if_pos (by decide), contentOf_update]
      exact hshow2
    · rw [if_pos (by decide)]
      intro q
      by_cases hq : q = p
      · subst hq
        rw [Function.update_self]
        exact data.length_eq
      · rw [Function.update_of_ne hq]
        exact h.blocks q

/-- A descriptor moves within the file. -/
theorem Holds.moved_fd (h : Holds name fs B s) (he : (fs.fds d).flags ≠ 0 → e ≤ s.size) :
    Holds name (fs.setFd d { fs.fds d with offset := e }) B s := by
  refine h.sameStore ⟨rfl, rfl, fun i => ⟨_, rfl⟩⟩ fun d' hd' hused => ?_
  by_cases hdd : d' = d
  · subst hdd
    rw [Fs.fds_setFd_self] at hused ⊢
    exact ⟨(h.fds d' hd' hused).1, he hused⟩
  · simp only [Fs.setFd, Function.update_of_ne hdd] at hused ⊢
    exact h.fds d' hd' hused

theorem Inv.readPage (h : Inv name size fd st) (hsize : size ≤ 4326) {p : Nat}
    (hp : 256 * p < size) :
    Ends (readPage fd p) st.fs fun r fs' => Inv name size fd ⟨fs', st.pages⟩ ∧
      ∃ bytes, r = some bytes ∧ (bytes.length = 256 → bytes = st.pages p) := by
  have hoff : p * 256 % 65536 = 256 * p := by omega
  unfold Coffee.readPage
  dsimp only
  rw [hoff]
  refine Ends.seq (h.seek hp) ?_
  rintro _ fs1 ⟨rfl, h1, hoff1⟩
  rw [if_neg (not_not.mpr rfl)]
  obtain ⟨B, s, hs, hshow, hle⟩ := h1.shape
  have hread : (fs1.fds fd).flags &&& flagRead ≠ 0 := by
    have hflags := h1.open_.2.1
    dsimp only at hflags
    rw [hflags]
    decide
  refine (hs.cfsRead_ends h1.open_.1 hread 256).mono ?_
  rintro _ _ ⟨rfl, rfl⟩
  dsimp only
  rw [hoff1]
  refine ⟨h1.keep (sameFlags_setFd fs1 fd _ fd h1.open_.1) ⟨B, s, hs.moved_fd fun _ => by omega, ?_, hle⟩
    h.blocks, _, rfl, fun hlen => ?_⟩
  · exact fun off hoff => hshow off hoff
  · rw [Mem.length_read] at hlen
    rw [hlen, ← read_contentOf h.blocks]
    exact Mem.read_congr fun i hi => hshow _ (by omega)

theorem Inv.cfsOpen (h : Inv name size fd st) (flags : UInt8) :
    Ends (cfsOpen name.bytes flags) st.fs fun _ fs' => Inv name size fd ⟨fs', st.pages⟩ := by
  obtain ⟨B, s, hs, hshow, hle⟩ := h.shape
  refine (cfsOpen_ends hs rfl flags).mono ?_
  rintro r fs' ⟨h', hsame, hr⟩
  refine h.keep ?_ ⟨B, s, h', hshow.sameStore hsame, hle⟩ h.blocks
  match r with
  | none =>
    rw [show fs' = st.fs from hr]
    exact ⟨rfl, fun _ => rfl⟩
  | some d =>
    obtain ⟨-, hfree, desc, hfds, -⟩ := hr
    have hne : fd ≠ d := by
      rintro rfl
      exact h.fd_used hfree
    rw [hfds, Function.update_of_ne hne]
    exact ⟨rfl, fun _ => rfl⟩

theorem Inv.cfsClose (h : Inv name size fd st) {fd' : Nat} (hne : fd' ≠ fd) :
    Ends (cfsClose fd') st.fs fun _ fs' => Inv name size fd ⟨fs', st.pages⟩ := by
  obtain ⟨B, s, hs, hshow, hle⟩ := h.shape
  refine (cfsClose_ends hs fd').mono ?_
  rintro _ fs' ⟨h', hsame, -, hothers⟩
  refine h.keep ?_ ⟨B, s, h', hshow.sameStore hsame, hle⟩ h.blocks
  rw [hothers fd hne.symm]
  exact ⟨rfl, fun _ => rfl⟩

theorem Inv.cfsRead (h : Inv name size fd st) (fd' n : Nat) :
    Ends (cfsRead fd' n) st.fs fun _ fs' => Inv name size fd ⟨fs', st.pages⟩ := by
  obtain ⟨B, s, hs, hshow, hle⟩ := h.shape
  by_cases hread : fd' < fdSetSize ∧ (st.fs.fds fd').flags &&& flagRead ≠ 0
  · refine (hs.cfsRead_ends hread.1 hread.2 n).mono ?_
    rintro _ _ ⟨-, rfl⟩
    refine h.keep (sameFlags_setFd st.fs fd' _ fd h.open_.1)
      ⟨B, s, hs.moved_fd fun hused => ?_, fun off hoff => hshow off hoff, hle⟩ h.blocks
    have := (hs.fds fd' hread.1 hused).2
    omega
  · have hinvalid : (st.fs.fdValid fd' && decide ((st.fs.fds fd').flags &&& flagRead ≠ 0)) = false := by
      rw [Bool.eq_false_iff]
      intro hvalid
      rw [Bool.and_eq_true, Fs.fdValid_iff, decide_eq_true_eq] at hvalid
      exact hread ⟨hvalid.1.1, hvalid.2⟩
    unfold Coffee.cfsRead
    refine Ends.load ?_
    rw [hinvalid, Bool.not_false, if_pos rfl]
    exact Ends.ret h

/-- Every allowed call returns and keeps the invariant. -/
theorem Inv.next (h : Inv name size fd st) (hsize : size ≤ 4326) {op : Op}
    (hop : op.Allowed size fd) : ∃ st', next name fd op st = some st' ∧ Inv name size fd st' := by
  match op with
  | .writePage p data =>
    obtain ⟨r, fs', heq, h'⟩ := h.writePage hsize hop data
    exact ⟨_, by rw [Coffee.next, heq]; rfl, h'⟩
  | .readPage p =>
    obtain ⟨r, fs', heq, h', -⟩ := h.readPage hsize hop
    exact ⟨_, by rw [Coffee.next, heq]; rfl, h'⟩
  | .cfsOpen flags =>
    obtain ⟨r, fs', heq, h'⟩ := h.cfsOpen flags
    exact ⟨_, by rw [Coffee.next, heq]; rfl, h'⟩
  | .cfsRead fd' n =>
    obtain ⟨r, fs', heq, h'⟩ := h.cfsRead fd' n
    exact ⟨_, by rw [Coffee.next, heq]; rfl, h'⟩
  | .cfsClose fd' =>
    obtain ⟨r, fs', heq, h'⟩ := h.cfsClose hop
    exact ⟨_, by rw [Coffee.next, heq]; rfl, h'⟩

theorem inv_reached (hsize : size ≤ 4326) (h : Reached name size fd st) : Inv name size fd st := by
  refine Lib.Reach.invariant ?_ ?_ h
  · rintro ⟨fs, pages⟩ ⟨⟨fs0, hboot⟩, hpages⟩
    obtain ⟨r, fs', heq, hinv⟩ := boot_inv name hsize fs0
    obtain ⟨rfl, rfl⟩ := Prod.mk.inj (Option.some.inj (hboot.symm.trans heq))
    obtain rfl : pages = _ := hpages
    exact hinv fd rfl
  · intro op st st' hinv hop hstep
    obtain ⟨st'', heq, h'⟩ := hinv.next hsize hop
    obtain rfl : st' = st'' := Option.some.inj (hstep.symm.trans heq)
    exact h'

/-- `read_page` finds the data of the last `write_page`, whenever it gives a whole page. -/
def Faithful (size fd : Nat) (st : Store) : Prop :=
  ∀ p, 256 * p < size → ∃ bytes fs', readPage fd p st.fs = some (some bytes, fs') ∧
    (bytes.length = 256 → bytes = st.pages p)

/-- A file that fits behind the header in the 17 pages reserved for it is a page store: every call
    returns, and a page that is read is the page last written. -/
theorem page_store (name : FileName) {size fd : Nat} (hsize : size ≤ 4326) {st : Store}
    (h : Reached name size fd st) : Faithful size fd st ∧
      ∀ op, op.Allowed size fd → ∃ st', next name fd op st = some st' := by
  have hinv := inv_reached hsize h
  refine ⟨fun p hp => ?_, fun op hop => ?_⟩
  · obtain ⟨_, fs', heq, -, bytes, rfl, hbytes⟩ := hinv.readPage hsize hp
    exact ⟨bytes, fs', heq, hbytes⟩
  · obtain ⟨st', heq, -⟩ := hinv.next hsize hop
    exact ⟨st', heq⟩

/-! ## Files made at boot -/

instance (size fd : Nat) : (op : Op) → Decidable (op.Allowed size fd)
  | .writePage pagenum _ => inferInstanceAs (Decidable (256 * pagenum < size))
  | .readPage pagenum => inferInstanceAs (Decidable (256 * pagenum < size))
  | .cfsOpen _ => .isTrue trivial
  | .cfsRead _ _ => .isTrue trivial
  | .cfsClose fd' => inferInstanceAs (Decidable (fd' ≠ fd))

/-- `"blink.ce"`. -/
def blink : FileName := ⟨[98, 108, 105, 110, 107, 46, 99, 101], by decide⟩

/-- Memory as the device may have it before it is formatted. -/
def unformatted : Fs := ⟨fun _ => 255, fun _ => ⟨0, 0, 0, 0, 0, false⟩, fun _ => ⟨0, none, 0, 0⟩, 0, false, 0, false⟩

/-- The store after the start, as far as there is one. -/
def booted (size : Nat) : Store where
  fs := ((boot blink.bytes size unformatted).getD (none, unformatted)).2
  pages := fun _ => List.replicate 256 0

theorem started_booted {size fd : Nat}
    (h : (boot blink.bytes size unformatted).map (·.1) = some (some fd)) :
    Started blink size fd (booted size) := by
  obtain ⟨⟨r, fs⟩, heq, hr⟩ := Option.map_eq_some_iff.mp h
  refine ⟨⟨unformatted, ?_⟩, rfl⟩
  obtain rfl : r = some fd := hr
  rw [booted, heq]
  rfl

/-- A state after the calls of a list. -/
theorem reached_of_run {size fd : Nat}
    (h : (boot blink.bytes size unformatted).map (·.1) = some (some fd)) (ops : List Op)
    (p : Store → Bool)
    (hp : (Lib.runList (Lib.guarded (fun (op : Op) (_ : Store) => op.Allowed size fd)
      (next blink fd)) ops (booted size)).map p = some true) :
    ∃ st, Reached blink size fd st ∧ p st = true :=
  Lib.Reach.exists_of_run _ (fun _ _ _ h => h) ops p (started_booted h) hp

/-- A block of equal bytes. -/
def Block.of (byte : UInt8) : Block := ⟨List.replicate 256 byte, List.length_replicate⟩

/-- Five writes fill the log of a file of the size that the test program uses, and merge it. -/
theorem page_store_blink : ∃ st, Reached blink 1280 1 st ∧ st.pages 2 = (Block.of 5).bytes ∧
    Faithful 1280 1 st ∧ ∀ op : Op, op.Allowed 1280 1 → ∃ st', next blink 1 op st = some st' := by
  have hboot : (boot blink.bytes 1280 unformatted).map (·.1) = some (some 1) := by decide +kernel
  obtain ⟨st, hst, hp⟩ := reached_of_run hboot
    [.writePage 0 (.of 1), .writePage 1 (.of 2), .writePage 2 (.of 3), .writePage 0 (.of 4),
      .cfsOpen flagRead, .writePage 2 (.of 5)]
    (fun st => decide (st.pages 2 = (Block.of 5).bytes)) (by decide +kernel)
  exact ⟨st, hst, of_decide_eq_true hp, page_store blink (by decide) hst⟩

theorem not_faithful {size fd p : Nat} {st : Store} (hp : 256 * p < size)
    (h : (readPage fd p st.fs).map (fun r => r.1.any fun bytes =>
      decide (bytes.length = 256 ∧ bytes ≠ st.pages p)) = some true) : ¬ Faithful size fd st := by
  intro hf
  obtain ⟨bytes, fs', heq, hbytes⟩ := hf p hp
  rw [heq] at h
  simp only [Option.map_some, Option.any_some, Option.some.injEq, decide_eq_true_eq] at h
  exact h.2 (hbytes h.1)

/-- A file of 17 whole pages, which `cfs_seek` admits: one page is written, and another that never
    was written reads as what lies behind the extent. -/
theorem header_read : ∃ st, Reached blink 4352 1 st ∧ ¬ Faithful 4352 1 st := by
  have hboot : (boot blink.bytes 4352 unformatted).map (·.1) = some (some 1) := by decide +kernel
  obtain ⟨st, hst, hp⟩ := reached_of_run hboot [.writePage 0 (.of 1)]
    (fun st => decide ((readPage 1 16 st.fs).map (fun r => r.1.any fun bytes =>
      decide (bytes.length = 256 ∧ bytes ≠ st.pages 16)) = some true)) (by decide +kernel)
  exact ⟨st, hst, not_faithful (by decide) (of_decide_eq_true hp)⟩

end Adler.Coffee
