/-
  A flash with one file on it, as every call finds and leaves it: the file has an extent, a slot in
  the table of cached files and maybe a micro log with an extent and a slot of its own.

  * `Shape`: where these are.
  * `Holds`: the invariant, and `Shows`: the bytes that a reader sees.
  * `cfsOpen_ends`, `cfsClose_ends`: descriptors come and go.
-/
import Adler.Coffee.Read
import Adler.Coffee.Reserve

namespace Adler.Coffee

open Lib (Mem Prog Ends Cell LiveAt)

/-! ## Names -/

/-- The name of a file, short enough for its header. -/
structure FileName where
  bytes : List UInt8
  fits : (cString bytes).length ≤ 15

theorem takeWhile_zeros (k : Nat) {x : List UInt8} (h : ∀ a, x.head? = some a → a = 0) :
    cString (x.take k ++ [0]) = [] := by
  match k, x with
  | 0, _ => rfl
  | k + 1, [] => rfl
  | k + 1, a :: x =>
    obtain rfl := h a rfl
    rfl

/-- A name is found under its own name. -/
theorem cString_storedName (name : FileName) : cString (storedName name.bytes) = cString name.bytes := by
  have hsplit : name.bytes = cString name.bytes ++ name.bytes.dropWhile (· ≠ 0) :=
    List.takeWhile_append_dropWhile.symm
  have hchars : ∀ a ∈ cString name.bytes, decide (a ≠ 0) = true :=
    List.all_eq_true.mp List.all_takeWhile
  have hrest : ∀ a, (name.bytes.dropWhile (· ≠ 0) ++ List.replicate 15 0).head? = some a → a = 0 := by
    intro a ha
    match hd : name.bytes.dropWhile (· ≠ 0) with
    | [] =>
      rw [hd] at ha
      exact (Option.some.inj ha).symm
    | b :: l =>
      rw [hd] at ha
      obtain rfl : b = a := Option.some.inj ha
      have hnot := List.head?_dropWhile_not (fun a : UInt8 => decide (a ≠ 0)) name.bytes
      rw [hd] at hnot
      simpa using hnot
  have hstored : storedName name.bytes = cString name.bytes ++
      ((name.bytes.dropWhile (· ≠ 0) ++ List.replicate 15 0).take
        (15 - (cString name.bytes).length) ++ [0]) := by
    conv_lhs => rw [storedName, hsplit, List.append_assoc, List.take_append,
      List.take_of_length_le name.fits]
    rw [List.append_assoc]
  rw [hstored]
  conv_lhs => rw [cString, List.takeWhile_append_of_pos hchars]
  have hend := takeWhile_zeros (15 - (cString name.bytes).length) hrest
  rw [cString] at hend
  rw [hend, List.append_nil]

theorem storedName_storedName (name : List UInt8) : storedName (storedName name) = storedName name := by
  have hlen : ((name ++ List.replicate 15 0).take 15).length = 15 := by
    rw [List.length_take, List.length_append, List.length_replicate]
    omega
  conv_lhs => rw [storedName, storedName]
  rw [List.append_assoc, List.take_append_of_le_length hlen.ge, List.take_of_length_le hlen.le]
  rfl

/-! ## The invariant -/

/-- A log: its slot, its first page, and how many records are taken. -/
structure LogShape where
  slot : Nat
  page : Nat
  records : Nat

/-- A file: its slot, its extent, its length and its log. -/
structure Shape where
  slot : Nat
  page : Nat
  pages : Nat
  size : Nat
  log : Option LogShape

/-- The log of a file; behind the records taken it is empty. -/
structure Logged (fs : Fs) (B : Nat → Prop) (s : Shape) (g : LogShape) : Prop where
  slot : g.slot ≠ s.slot
  le : g.records ≤ 4
  file : (fs.files g.slot).page = g.page
  inUse : InUse fs.flash B g.page 5
  isLog : (readHeader fs.flash g.page).check hdrFlagLog = true
  header : (readHeader fs.flash s.page).logPage = g.page
  index : ∀ i, 2 * g.records ≤ i → i < 8 → fs.flash (absoluteOffset g.page i) = 0
  blank : ∀ i, 256 * g.records ≤ i → i < 1024 → fs.flash (absoluteOffset g.page (8 + i)) = 0

/-- What a slot of `coffee_files` says about the file. -/
structure Cached (file : File) (s : Shape) : Prop where
  page : file.page = s.page
  maxPages : file.maxPages = s.pages
  fileEnd : file.fileEnd = s.size
  modified : file.modified = s.log.isSome

/-- What the header says about the file. -/
structure Titled (name : FileName) (hdr : FileHeader) (s : Shape) : Prop where
  name : hdr.name = storedName name.bytes
  standard : hdr.Standard
  isLog : hdr.check hdrFlagLog = false
  modified : hdr.check hdrFlagModified = s.log.isSome
  logPage : s.log = none → hdr.logPage = 0

/-- The header that `reserve` writes for a file. -/
theorem titled_reserved {name : FileName} {nm : List UInt8}
    (hnm : storedName nm = storedName name.bytes) (slot page pages size : Nat) :
    Titled name (reservedHeader nm pages 0).valid ⟨slot, page, pages, size, none⟩ where
  name := hnm
  standard := ⟨rfl, rfl⟩
  isLog := by
    rw [check_reserved]
    decide
  modified := by
    rw [check_reserved, Option.isSome_none]
    decide
  logPage := fun _ => rfl

/-- The flash and the tables hold one file, of shape `s`. -/
structure Carries (name : FileName) (fs : Fs) (B : Nat → Prop) (s : Shape) : Prop where
  layout : Layout fs.flash fs.nextFree B
  slot : s.slot < maxOpenFiles
  cached : Cached (fs.files s.slot) s
  inUse : InUse fs.flash B s.page s.pages
  pages : s.pages = 17 ∨ s.pages = 34
  fits : s.size + 26 ≤ 256 * s.pages
  titled : Titled name (readHeader fs.flash s.page) s
  logged : ∀ g, s.log = some g → Logged fs B s g
  only : ∀ b n, InUse fs.flash B b n → b = s.page ∨ ∃ g, s.log = some g ∧ b = g.page
  free : ∀ i, i < maxOpenFiles → i ≠ s.slot → (∀ g, s.log = some g → i ≠ g.slot) →
    (fs.files i).free = true
  fds : ∀ d, d < fdSetSize → (fs.fds d).flags ≠ 0 →
    (fs.fds d).file = some s.slot ∧ (fs.fds d).offset ≤ s.size

/-- What holds between the calls: the records are counted. -/
structure Holds (name : FileName) (fs : Fs) (B : Nat → Prop) (s : Shape) : Prop
    extends Carries name fs B s where
  count : ∀ g, s.log = some g → (fs.files s.slot).recordCount = g.records

/-- The log is in an extent of its own. -/
theorem Carries.page_ne {name : FileName} {fs : Fs} {B : Nat → Prop} {s : Shape} {g : LogShape}
    (h : Carries name fs B s) (hlog : s.log = some g) : g.page ≠ s.page := by
  intro heq
  have hplain := h.titled.isLog
  rw [← heq, (h.logged g hlog).isLog] at hplain
  cases hplain

/-- Readers see `content`. -/
def Shows (fs : Fs) (s : Shape) (content : Mem) : Prop :=
  ∀ off, off < s.size → visible fs.flash (fs.files s.slot) off = content off

/-! ## Only references change -/

/-- The flash is the same, and the cached files are but for their references. -/
structure SameStore (fs fs' : Fs) : Prop where
  flash : fs'.flash = fs.flash
  nextFree : fs'.nextFree = fs.nextFree
  files : ∀ i, ∃ r, fs'.files i = { fs.files i with references := r }

variable {name : FileName} {fs fs' fs'' : Fs} {B : Nat → Prop} {s : Shape} {content : Mem}

theorem SameStore.trans (h : SameStore fs fs') (h' : SameStore fs' fs'') : SameStore fs fs'' where
  flash := h'.flash.trans h.flash
  nextFree := h'.nextFree.trans h.nextFree
  files := by
    intro i
    obtain ⟨r, hr⟩ := h.files i
    obtain ⟨r', hr'⟩ := h'.files i
    exact ⟨r', by rw [hr', hr]⟩

theorem Holds.sameStore (h : Holds name fs B s) (hs : SameStore fs fs')
    (hfds : ∀ d, d < fdSetSize → (fs'.fds d).flags ≠ 0 →
      (fs'.fds d).file = some s.slot ∧ (fs'.fds d).offset ≤ s.size) : Holds name fs' B s where
  layout := by
    rw [hs.flash, hs.nextFree]
    exact h.layout
  slot := h.slot
  cached := by
    obtain ⟨r, hr⟩ := hs.files s.slot
    rw [hr]
    exact ⟨h.cached.page, h.cached.maxPages, h.cached.fileEnd, h.cached.modified⟩
  inUse := by
    rw [hs.flash]
    exact h.inUse
  pages := h.pages
  fits := h.fits
  titled := by
    rw [hs.flash]
    exact h.titled
  logged := by
    intro g hg
    obtain ⟨r, hr⟩ := hs.files g.slot
    have hlog := h.logged g hg
    constructor
    · exact hlog.slot
    · exact hlog.le
    · rw [hr]
      exact hlog.file
    all_goals rw [hs.flash]
    · exact hlog.inUse
    · exact hlog.isLog
    · exact hlog.header
    · exact hlog.index
    · exact hlog.blank
  only := by
    rw [hs.flash]
    exact h.only
  free := by
    intro i hi hne hlog
    obtain ⟨r, hr⟩ := hs.files i
    rw [hr]
    exact h.free i hi hne hlog
  fds := hfds
  count := by
    intro g hg
    obtain ⟨r, hr⟩ := hs.files s.slot
    rw [hr]
    exact h.count g hg

theorem Shows.sameStore (h : Shows fs s content) (hs : SameStore fs fs') : Shows fs' s content := by
  intro off hoff
  obtain ⟨r, hr⟩ := hs.files s.slot
  rw [hr, hs.flash]
  exact h off hoff

/-! ## Opening and closing -/

theorem FileHeader.named_iff {hdr : FileHeader} {nm : List UInt8} : hdr.named nm = true ↔
    hdr.active = true ∧ hdr.check hdrFlagLog = false ∧ cString nm = cString hdr.name := by
  simp only [FileHeader.named, Bool.and_eq_true, Bool.not_eq_true', beq_iff_eq, and_assoc]

/-- The file is found in its slot. -/
theorem findFile_ends (h : Carries name fs B s) {nm : List UInt8}
    (hnm : cString nm = cString name.bytes) :
    Ends (findFile nm) fs fun r fs' => r = some s.slot ∧ fs' = fs := by
  have hpages : s.pages ≠ 0 := by
    have := h.pages
    omega
  have hself : fs.caches nm s.slot = true := by
    rw [Fs.caches, Bool.and_eq_true, h.cached.page, FileHeader.named_iff, h.titled.name, hnm,
      cString_storedName]
    refine ⟨?_, h.inUse.live, h.titled.isLog, rfl⟩
    rw [File.free, h.cached.maxPages, decide_eq_false hpages, Bool.not_false]
  have honly : ∀ i, i < maxOpenFiles → fs.caches nm i = true → i = s.slot := by
    intro i hi hmatch
    rw [Fs.caches, Bool.and_eq_true, Bool.not_eq_true', FileHeader.named_iff] at hmatch
    by_contra hne
    have hfree := h.free i hi hne
    rw [hmatch.1] at hfree
    refine Bool.false_ne_true (hfree ?_)
    rintro g hg rfl
    have hlog := h.logged g hg
    rw [hlog.file, hlog.isLog] at hmatch
    exact Bool.false_ne_true hmatch.2.2.1.symm
  obtain ⟨i, hi⟩ := Option.isSome_iff_exists.mp
    (List.find?_isSome.mpr ⟨s.slot, List.mem_range.mpr h.slot, hself⟩)
  have heq := honly i (List.mem_range.mp (List.mem_of_find?_eq_some hi)) (List.find?_some hi)
  unfold findFile
  refine Ends.load ?_
  rw [hi]
  exact Ends.ret ⟨congrArg some heq, rfl⟩

theorem sameStore_openFd (fs : Fs) (d i : Nat) (fd : FileDesc) (r : UInt8) :
    SameStore fs ((fs.setFd d fd).setFile i { (fs.setFd d fd).files i with references := r }) where
  flash := rfl
  nextFree := rfl
  files := by
    intro j
    by_cases hj : j = i
    · subst hj
      exact ⟨r, Function.update_self ..⟩
    · exact ⟨_, Function.update_of_ne hj ..⟩

/-- The end of `cfs_open`. -/
theorem openFd_ends (d i : Nat) (flags : UInt8) (fs : Fs) :
    Ends (openFd d i flags) fs fun r fs' => r = some d ∧ SameStore fs fs' ∧
      fs'.fds = Function.update fs.fds d
        { fs.fds d with
          flags := flags
          file := some i
          offset := if flags &&& flagAppend ≠ 0 then (fs.files i).fileEnd.toNat else 0 } := by
  unfold openFd
  exact Ends.update (Ends.update (Ends.ret ⟨rfl, sameStore_openFd _ _ _ _ _, rfl⟩))

/-- `cfs_open` of the file takes a free descriptor. -/
theorem cfsOpen_ends (h : Holds name fs B s) {nm : List UInt8}
    (hnm : cString nm = cString name.bytes) (flags : UInt8) :
    Ends (cfsOpen nm flags) fs fun r fs' => Holds name fs' B s ∧ SameStore fs fs' ∧
      match r with
      | none => fs' = fs
      | some d => d < fdSetSize ∧ (fs.fds d).flags = 0 ∧ ∃ fd, fs'.fds = Function.update fs.fds d fd ∧
          fd.flags = flags ∧ fd.file = some s.slot ∧ fd.ioFlags = (fs.fds d).ioFlags ∧
          fd.offset = if flags &&& flagAppend ≠ 0 then s.size else 0 := by
  have hend : ¬ (fs.files s.slot).fileEnd = -1 := by
    rw [h.cached.fileEnd]
    omega
  unfold cfsOpen
  refine Ends.load ?_
  match hd : getAvailableFd fs with
  | none => exact Ends.ret ⟨h, ⟨rfl, rfl, fun i => ⟨_, rfl⟩⟩, rfl⟩
  | some d =>
    have hd8 : d < fdSetSize := List.mem_range.mp (List.mem_of_find?_eq_some hd)
    have hfree : (fs.fds d).flags = 0 := by simpa using List.find?_some hd
    dsimp only
    refine Ends.seq (findFile_ends h.toCarries hnm) ?_
    rintro _ fs' ⟨rfl, hfs⟩
    rw [hfs]
    refine Ends.update ?_
    rw [if_neg hend]
    refine (openFd_ends d s.slot flags fs).mono ?_
    rintro _ fs1 ⟨rfl, hsame, hfds⟩
    rw [h.cached.fileEnd, Int.toNat_natCast] at hfds
    refine ⟨h.sameStore hsame ?_, hsame, hd8, hfree, _, hfds, rfl, rfl, rfl, rfl⟩
    intro d' hd' hused
    by_cases hdd : d' = d
    · subst hdd
      rw [hfds, Function.update_self]
      refine ⟨rfl, ?_⟩
      dsimp only
      split
      · exact le_rfl
      · exact Nat.zero_le _
    · rw [hfds, Function.update_of_ne hdd] at hused ⊢
      exact h.fds d' hd' hused

/-- `cfs_close` frees the descriptor. -/
theorem cfsClose_ends (h : Holds name fs B s) (d : Nat) :
    Ends (cfsClose d) fs fun _ fs' => Holds name fs' B s ∧ SameStore fs fs' ∧
      (d < fdSetSize → (fs'.fds d).flags = 0) ∧ ∀ d', d' ≠ d → fs'.fds d' = fs.fds d' := by
  unfold cfsClose
  refine Ends.load ?_
  split
  · rename_i hvalid
    rw [Fs.fdValid_iff] at hvalid
    obtain ⟨hfile, -⟩ := h.fds d hvalid.1 hvalid.2
    rw [hfile]
    dsimp only
    refine Ends.update (Ends.update_last ?_)
    have hsame := sameStore_openFd fs d s.slot { fs.fds d with flags := 0, file := none }
      ((fs.files s.slot).references - 1)
    refine ⟨h.sameStore hsame ?_, hsame, fun _ => ?_, ?_⟩
    · intro d' hd' hused
      by_cases hdd : d' = d
      · subst hdd
        simp only [Fs.setFile, Fs.fds_setFd_self] at hused
        exact absurd rfl hused
      · simp only [Fs.setFile, Fs.setFd, Function.update_of_ne hdd] at hused ⊢
        exact h.fds d' hd' hused
    · simp only [Fs.setFile, Fs.fds_setFd_self]
    · intro d' hdd
      simp only [Fs.setFile, Fs.setFd, Function.update_of_ne hdd]
  · rename_i hvalid
    refine Ends.ret ⟨h, ⟨rfl, rfl, fun i => ⟨_, rfl⟩⟩, fun hd => ?_, fun _ _ => rfl⟩
    by_contra hused
    exact hvalid (Fs.fdValid_iff.mpr ⟨hd, hused⟩)

/-! ## Other extents change -/

theorem Layout.readHeader_preserved {m m' : Mem} {nf b n : Nat} (hl : Layout m nf B)
    (huse : InUse m B b n) (hm : Preserved m m' B) : readHeader m' b = readHeader m b := by
  have hn := (hl.tiled.extent b n huse.stop huse.lt huse.extent).1
  refine readHeader_congr fun i hi => hm b n huse _ ?_ ?_
  · simp only [pageSize]
    omega
  · simp only [headerSize, pageSize] at hi ⊢
    omega

/-- A byte behind the header of an extent in use. -/
theorem Preserved.byte {m m' : Mem} {b n off : Nat} (hm : Preserved m m' B) (huse : InUse m B b n)
    (hoff : off + 26 < 256 * n) : m' (absoluteOffset b off) = m (absoluteOffset b off) := by
  refine hm b n huse _ ?_ ?_
  · simp only [absoluteOffset, pageSize]
    omega
  · simp only [absoluteOffset, headerSize, pageSize]
    omega

/-- A read depends on the extents of the file and its log only. -/
theorem Holds.visible_preserved (h : Holds name fs B s) {m' : Mem} (hm : Preserved fs.flash m' B)
    {off : Nat} (hoff : off < s.size) :
    visible m' (fs.files s.slot) off = visible fs.flash (fs.files s.slot) off := by
  have hfits := h.fits
  have hhdr : readHeader m' (fs.files s.slot).page = readHeader fs.flash (fs.files s.slot).page := by
    rw [h.cached.page]
    exact h.layout.readHeader_preserved h.inUse hm
  have hfile : m' (absoluteOffset (fs.files s.slot).page off) =
      fs.flash (absoluteOffset (fs.files s.slot).page off) := by
    rw [h.cached.page]
    exact hm.byte h.inUse (by omega)
  match hlog : s.log with
  | none =>
    have hmod : (fs.files s.slot).modified = false := by
      rw [h.cached.modified, hlog]
      rfl
    rw [visible_unmodified hmod, visible_unmodified hmod, hfile]
  | some g =>
    have hl := h.logged g hlog
    have hcount := h.count g hlog
    have hle := hl.le
    have hpage : (readHeader fs.flash (fs.files s.slot).page).logPage = g.page := by
      rw [h.cached.page, hl.header]
    have hbyte : ∀ i, i < 1032 → m' (absoluteOffset g.page i) = fs.flash (absoluteOffset g.page i) :=
      fun i hi => hm.byte hl.inUse (by omega)
    have hlimit : (fs.files s.slot).recordCount.toNat ≤ logTableLimit := by
      rw [hcount]
      simp only [Int.toNat_natCast, logTableLimit]
      omega
    have hrec : recordOf m' (fs.files s.slot) off = recordOf fs.flash (fs.files s.slot) off := by
      unfold recordOf
      rw [hhdr, hpage, getRecordIndex_congr hlimit]
      intro i hi
      rw [hcount, Int.toNat_natCast] at hi
      exact hbyte i (by omega)
    unfold visible
    rw [hrec, hhdr, hpage]
    match hk : recordOf fs.flash (fs.files s.slot) off with
    | none => exact hfile
    | some k =>
      have hk4 : k < g.records := by
        rw [recordOf, h.cached.modified, hlog, Option.isSome_some, if_pos rfl] at hk
        have := getRecordIndex_lt hlimit hk
        rwa [hcount, Int.toNat_natCast] at this
      exact hbyte _ (by omega)

/-- The garbage collector keeps the file. -/
theorem Holds.kept {B' : Nat → Prop} (h : Holds name fs B s) (hk : Kept fs fs' B B')
    (hl : Layout fs'.flash fs'.nextFree B') : Holds name fs' B' s where
  layout := hl
  slot := h.slot
  cached := by
    rw [hk.files]
    exact h.cached
  inUse := (hk.inUse _ _).mpr h.inUse
  pages := h.pages
  fits := h.fits
  titled := by
    rw [h.layout.readHeader_preserved h.inUse hk.bytes]
    exact h.titled
  logged := by
    intro g hg
    have hlog := h.logged g hg
    have hbyte : ∀ i, i < 1032 →
        fs'.flash (absoluteOffset g.page i) = fs.flash (absoluteOffset g.page i) :=
      fun i hi => hk.bytes.byte hlog.inUse (by omega)
    refine ⟨hlog.slot, hlog.le, ?_, (hk.inUse _ _).mpr hlog.inUse, ?_, ?_, ?_, ?_⟩
    · rw [hk.files]
      exact hlog.file
    · rw [h.layout.readHeader_preserved hlog.inUse hk.bytes]
      exact hlog.isLog
    · rw [h.layout.readHeader_preserved h.inUse hk.bytes]
      exact hlog.header
    · intro i h1 h2
      rw [hbyte i (by omega)]
      exact hlog.index i h1 h2
    · intro i h1 h2
      rw [hbyte (8 + i) (by omega)]
      exact hlog.blank i h1 h2
  only := fun b n huse => h.only b n ((hk.inUse b n).mp huse)
  free := by
    rw [hk.files]
    exact h.free
  fds := by
    rw [hk.fds]
    exact h.fds
  count := by
    rw [hk.files]
    exact h.count

theorem Holds.shows_kept {B' : Nat → Prop} (h : Holds name fs B s) (hk : Kept fs fs' B B')
    (hc : Shows fs s content) : Shows fs' s content := by
  intro off hoff
  rw [hk.files, h.visible_preserved hk.bytes hoff]
  exact hc off hoff

/-- There is a slot for one more file. -/
theorem Carries.exists_free (h : Carries name fs B s) :
    ∃ i, i < maxOpenFiles ∧ (fs.files i).free = true := by
  match hlog : s.log with
  | none =>
    obtain ⟨i, hi, hne⟩ : ∃ i, i < 6 ∧ i ≠ s.slot := by
      by_cases h0 : s.slot = 0
      · exact ⟨1, by omega, by omega⟩
      · exact ⟨0, by omega, by omega⟩
    exact ⟨i, hi, h.free i hi hne (fun g hg => by rw [hlog] at hg; cases hg)⟩
  | some g =>
    obtain ⟨i, hi, hne, hng⟩ : ∃ i, i < 6 ∧ i ≠ s.slot ∧ i ≠ g.slot := by
      by_cases h0 : s.slot = 0 ∨ g.slot = 0
      · by_cases h1 : s.slot = 1 ∨ g.slot = 1
        · exact ⟨2, by omega, by omega, by omega⟩
        · exact ⟨1, by omega, by omega, by omega⟩
      · exact ⟨0, by omega, by omega, by omega⟩
    refine ⟨i, hi, h.free i hi hne ?_⟩
    intro g' hg'
    rw [hlog] at hg'
    cases hg'
    exact hng

/-- `cfs_read` through a descriptor that is open for reading. -/
theorem Holds.cfsRead_ends (h : Holds name fs B s) {d : Nat} (hd : d < fdSetSize)
    (hflags : (fs.fds d).flags &&& flagRead ≠ 0) (size : Nat) :
    Ends (cfsRead d size) fs fun r fs' =>
      r = some (Mem.read (visible fs.flash (fs.files s.slot)) (fs.fds d).offset
        (min size (s.size - (fs.fds d).offset))) ∧
      fs' = fs.setFd d { fs.fds d with
        offset := (fs.fds d).offset + min size (s.size - (fs.fds d).offset) } := by
  obtain ⟨hfile, hoff⟩ := h.fds d hd (ne_zero_of_and hflags)
  have hfits := h.fits
  have hpages := h.pages
  refine Coffee.cfsRead_ends hd hflags hfile h.cached.fileEnd hoff (by omega) ?_ size
  intro hmod
  rw [h.cached.modified] at hmod
  obtain ⟨g, hg⟩ := Option.isSome_iff_exists.mp hmod
  refine ⟨?_, ?_⟩
  · rw [h.count g hg]
    exact Int.natCast_nonneg _
  · rw [h.cached.page]
    exact h.titled.standard

end Adler.Coffee
