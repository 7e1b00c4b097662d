/-
  How the extents lie on the flash: the headers of the pages a walk stops at, as the cells of
  `Lib.Extents`, and the invariant `Layout`. Everything the file system does keeps it: finding pages
  (`findContiguousPages_ends`), reserving and removing extents, writing data into them, and
  collecting garbage (`Coffee.Collect`).
-/
import Adler.Coffee.Sectors

namespace Adler.Coffee

open Lib (Mem Prog Ends Cell Tiled Sectors Scan Room LiveAt Clear)

/-- What the header of a page says. -/
def cell (m : Mem) (page : Nat) : Cell :=
  let hdr := readHeader m page
  if hdr.free then .free else if hdr.check hdrFlagIsolated then .single else .extent hdr.maxPages

/-- The page starts a file that is in use. -/
def Live (m : Mem) (page : Nat) : Prop := (readHeader m page).active = true

/-- The page is erased. -/
def Blank (m : Mem) (page : Nat) : Prop := ∀ i, i < pageSize → m (pageSize * page + i) = 0

/-- The first page of the next sector. -/
def sectorEnd (page : Nat) : Nat := pagesPerSector * (page / pagesPerSector + 1)

theorem sectors_sectorEnd : Sectors sectorEnd where
  lt := by
    intro b
    simp only [sectorEnd, pagesPerSector]
    omega
  eq := by
    intro b q h1 h2
    simp only [sectorEnd, pagesPerSector] at h2 ⊢
    omega

theorem sectorEnd_le (b : Nat) (h : b < pageCount) : sectorEnd b ≤ pageCount := by
  simp only [sectorEnd, pagesPerSector, pageCount] at h ⊢
  omega

/-- The invariant of the headers and of `next_free`; `B` are the pages where headers start. -/
structure Ground (m : Mem) (nextFree : Nat) (B : Nat → Prop) : Prop where
  tiled : Tiled sectorEnd pageCount pagesPerSector (cell m) B
  blank : ∀ q, B q → q < pageCount → cell m q = .free → Blank m q
  stop : B nextFree
  le : nextFree ≤ pageCount
  first : ∀ q, B q → q < pageCount → cell m q = .free → nextFree ≤ q

/-- The invariant between the calls, which the garbage collector relies on. -/
structure Layout (m : Mem) (nextFree : Nat) (B : Nat → Prop) : Prop extends Ground m nextFree B where
  clear : Clear sectorEnd pageCount (cell m) B (Live m)

/-- The extent in use of `n` pages at `b`. -/
abbrev InUse (m : Mem) (B : Nat → Prop) (b n : Nat) : Prop := LiveAt pageCount (cell m) B (Live m) b n

/-- The bytes of the extents in use are the same. -/
def Preserved (m m' : Mem) (B : Nat → Prop) : Prop :=
  ∀ b n, InUse m B b n → ∀ i, 256 * b ≤ i → i < 256 * (b + n) → m' i = m i

/-! ## Headers as cells -/

theorem nextFile_eq (m : Mem) (page : Nat) :
    nextFile page (readHeader m page) = (cell m page).next sectorEnd page := by
  unfold nextFile cell
  dsimp only
  split
  · simp only [Cell.next, sectorEnd, pagesPerSector]
    omega
  · split <;> rfl

theorem free_iff (m : Mem) (page : Nat) : (readHeader m page).free = true ↔ cell m page = .free := by
  unfold cell
  dsimp only
  constructor
  · intro h
    rw [if_pos h]
  · intro h
    by_contra hfree
    rw [if_neg hfree] at h
    split at h <;> cases h

theorem single_iff {m : Mem} {page : Nat} (h : cell m page ≠ .free) :
    (readHeader m page).check hdrFlagIsolated = true ↔ cell m page = .single := by
  have hfree : ¬ (readHeader m page).free = true := fun hf => h ((free_iff m page).mp hf)
  unfold cell
  dsimp only
  rw [if_neg hfree]
  split
  · simp_all
  · simp_all

/-- An extent is in use or obsolete. -/
theorem extent_flags {m : Mem} {page n : Nat} (h : cell m page = .extent n) :
    (readHeader m page).maxPages = n ∧ (readHeader m page).check hdrFlagIsolated = false ∧
      ((readHeader m page).active = true ∨ (readHeader m page).check hdrFlagObsolete = true) := by
  have hfree : ¬ (readHeader m page).free = true := by
    intro hf
    rw [(free_iff m page).mp hf] at h
    cases h
  unfold cell at h
  dsimp only at h
  rw [if_neg hfree] at h
  split at h
  · cases h
  · rename_i hiso
    refine ⟨Cell.extent.inj h, by simpa using hiso, ?_⟩
    simp only [FileHeader.free, Bool.not_eq_true, Bool.not_eq_false'] at hfree
    simp only [FileHeader.active, hfree, Bool.true_and, Bool.and_eq_true, Bool.not_eq_true']
    cases hobs : (readHeader m page).check hdrFlagObsolete
    · left
      exact ⟨rfl, by simpa using hiso⟩
    · right
      rfl

/-- The header of an erased page. -/
theorem flags_of_blank {m : Mem} {page : Nat} (h : Blank m page) : (readHeader m page).flags = 0 :=
  h 9 (by decide)

theorem check_of_flags {hdr : FileHeader} (h : hdr.flags = 0) (flag : UInt8) :
    hdr.check flag = false := by
  simp only [FileHeader.check, h, UInt8.zero_and, ne_eq, not_true_eq_false, decide_false]

theorem cell_of_blank {m : Mem} {page : Nat} (h : Blank m page) : cell m page = .free := by
  refine (free_iff m page).mp ?_
  rw [FileHeader.free, check_of_flags (flags_of_blank h)]
  rfl

theorem cell_congr {m m' : Mem} {page : Nat} (h : readHeader m' page = readHeader m page) :
    cell m' page = cell m page := by
  unfold cell
  rw [h]

theorem live_congr {m m' : Mem} {page : Nat} (h : readHeader m' page = readHeader m page) :
    Live m' page ↔ Live m page := by
  unfold Live
  rw [h]

/-! ## The search for free pages -/

variable {m : Mem} {B : Nat → Prop} {fs : Fs} {amount : Nat}

/-- Where the loop of `find_contiguous_pages` is: the pages from `start` on are free so far. -/
structure Searching (m : Mem) (B : Nat → Prop) (page : Nat) (start : Option Nat) : Prop where
  scan : Scan sectorEnd pageCount (cell m) B page
  free : ∀ s, start = some s → s < page ∧ Scan sectorEnd pageCount (cell m) B s ∧
    ∀ q, s ≤ q → q < page → B q ∧ cell m q = .free

/-- The state with the pages taken from `next_free`. -/
def Fs.take (fs : Fs) (first amount : Nat) : Fs :=
  { fs with nextFree := if first = fs.nextFree then first + amount else fs.nextFree }

theorem findPages_ends (hl : Layout fs.flash fs.nextFree B) (h1 : 1 ≤ amount)
    (h2 : amount < pagesPerSector) (fuel page : Nat) (start : Option Nat)
    (hfuel : pageCount < page + fuel) (hs : Searching fs.flash B page start) :
    Ends (findPages amount fuel page start) fs fun r fs' =>
      match r with
      | none => fs' = fs
      | some first => fs' = fs.take first amount ∧
          Room sectorEnd pageCount pagesPerSector (cell fs.flash) B first amount := by
  induction fuel generalizing page start with
  | zero => exact absurd hs.scan.le (by omega)
  | succ fuel ih =>
    unfold findPages
    by_cases hlt : page < pageCount
    · rw [if_pos hlt]
      refine Ends.load ?_
      simp only [nextFile_eq]
      by_cases hfree : (readHeader fs.flash page).free = true
      · rw [if_pos hfree]
        have hcell := (free_iff _ _).mp hfree
        have hend := sectorEnd_le page hlt
        have hsec := sectors_sectorEnd.lt page
        have hrest := hl.tiled.free page hs.scan.stop hlt hcell
        have hscan : Scan sectorEnd pageCount (cell fs.flash) B (start.getD page) := by
          cases start with
          | none => exact hs.scan
          | some s => exact (hs.free s rfl).2.1
        have hpages : start.getD page ≤ page ∧ ∀ q, start.getD page ≤ q → q < sectorEnd page →
            B q ∧ cell fs.flash q = .free := by
          cases start with
          | none => exact ⟨le_rfl, hrest⟩
          | some s =>
            obtain ⟨hlow, -, hbefore⟩ := hs.free s rfl
            refine ⟨hlow.le, ?_⟩
            intro q h1 h2
            rcases Nat.lt_or_ge q page with hq | hq
            · exact hbefore q h1 hq
            · exact hrest q hq h2
        obtain ⟨hle, hpages⟩ := hpages
        simp only [hcell, Cell.next]
        split
        · exact Ends.ret rfl
        · split
          · rename_i hfits
            refine Ends.update (Ends.ret ⟨rfl, h1, h2, by omega, ?_, hscan.first⟩)
            intro q hq1 hq2
            exact hpages q hq1 (by omega)
          · refine ih _ _ (by omega) ⟨?_, ?_⟩
            · exact hs.scan.next_free sectors_sectorEnd hl.tiled hlt hcell hend
            · rintro s ⟨⟩
              exact ⟨by omega, hscan, hpages⟩
      · rw [if_neg hfree]
        have hcell : cell fs.flash page ≠ .free := fun h => hfree ((free_iff _ _).mpr h)
        have hnext := hs.scan.next sectors_sectorEnd hl.tiled hlt hcell
        have hlater := hl.tiled.lt_next sectors_sectorEnd hs.scan.stop hlt
        refine ih _ _ (by omega) ⟨hnext, ?_⟩
        intro s hs
        cases hs
    · rw [if_neg hlt]
      exact Ends.ret rfl

/-- `find_contiguous_pages` finds room or leaves everything as it is. -/
theorem findContiguousPages_ends (hl : Layout fs.flash fs.nextFree B) (h1 : 1 ≤ amount)
    (h2 : amount < pagesPerSector) :
    Ends (findContiguousPages amount) fs fun r fs' =>
      match r with
      | none => fs' = fs
      | some first => fs' = fs.take first amount ∧
          Room sectorEnd pageCount pagesPerSector (cell fs.flash) B first amount := by
  unfold findContiguousPages
  refine Ends.load (findPages_ends hl h1 h2 _ _ _ (by omega) ⟨⟨hl.stop, hl.le, ?_⟩, ?_⟩)
  · intro q hq hqN hfree _
    exact hl.first q hq hqN hfree
  · exact fun s hs => nomatch hs

end Adler.Coffee
