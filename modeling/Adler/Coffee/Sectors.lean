/-
  The state of the Coffee file system, the walk over the headers, the garbage collector and the
  search for free pages (`core/cfs/cfs-coffee.c`).

  A loop that the code leaves only by its own condition has a bound on its rounds here, and the
  program does not return when the bound is hit; the theorems say that it returns.
-/
import Adler.Coffee.Flash
import Adler.Lib.Ends
import Adler.Lib.Extents

namespace Adler.Coffee

open Lib (Mem Prog Ends)

/-- `struct file`; the only flag is `COFFEE_FILE_MODIFIED`, and `UNKNOWN_OFFSET` is -1. -/
structure File where
  fileEnd : Int
  page : Nat
  maxPages : Nat
  recordCount : Int
  references : UInt8
  modified : Bool

/-- `struct file_desc`; a file is named by its index in `coffee_files`. -/
structure FileDesc where
  offset : Nat
  file : Option Nat
  flags : UInt8
  ioFlags : UInt8

/-- The flash, `protected_mem`, and the static variables of `get_sector_status`. -/
structure Fs where
  flash : Mem
  files : Nat → File
  fds : Nat → FileDesc
  nextFree : Nat
  gcWait : Bool
  skipPages : Nat
  lastPagesAreActive : Bool

namespace Fs

def setFlash (m : Mem) (fs : Fs) : Fs := { fs with flash := m }

def setFile (i : Nat) (file : File) (fs : Fs) : Fs :=
  { fs with files := Function.update fs.files i file }

def setFd (i : Nat) (fd : FileDesc) (fs : Fs) : Fs :=
  { fs with fds := Function.update fs.fds i fd }

@[simp] theorem fds_setFd_self (i : Nat) (fd : FileDesc) (fs : Fs) : (fs.setFd i fd).fds i = fd :=
  Function.update_self ..

@[simp] theorem setFd_setFd (i : Nat) (fd fd' : FileDesc) (fs : Fs) :
    (fs.setFd i fd).setFd i fd' = fs.setFd i fd' := by
  simp only [setFd, Function.update_idem]

end Fs

/-- `next_file`. -/
def nextFile (page : Nat) (hdr : FileHeader) : Nat :=
  if hdr.free then pagesPerSector * ((page + pagesPerSector) / pagesPerSector)
  else if hdr.check hdrFlagIsolated then page + 1
  else page + hdr.maxPages

/-! ## The garbage collector -/

/-- `struct sector_status`. -/
structure SectorStatus where
  active : Nat
  obsolete : Nat
  free : Nat

/-- The loop of `get_sector_status` over the headers of a sector, from `page` on. -/
def countPages (m : Mem) (sectorEnd : Nat) :
    Nat → Nat → Nat → Nat → Bool → Option (SectorStatus × Bool)
  | 0, _, _, _, _ => none
  | fuel + 1, page, active, obsolete, last =>
    if page < sectorEnd then
      let hdr := readHeader m page
      if hdr.active then
        countPages m sectorEnd fuel (page + hdr.maxPages) (active + hdr.maxPages) obsolete true
      else if hdr.check hdrFlagIsolated then
        countPages m sectorEnd fuel (page + 1) active (obsolete + 1) false
      else if hdr.check hdrFlagObsolete then
        countPages m sectorEnd fuel (page + hdr.maxPages) active (obsolete + hdr.maxPages) false
      else some (⟨active, obsolete, sectorEnd - page⟩, false)
    else some (⟨active, obsolete, 0⟩, last)

/-- The pages of an extent that leaves the sector are the last ones there. -/
def SectorStatus.cap (stats : SectorStatus) (skip : Nat) (last : Bool) : SectorStatus :=
  if skip = 0 then stats
  else if last then { stats with active := pagesPerSector - stats.obsolete }
  else { stats with obsolete := pagesPerSector - stats.active }

/-- `get_sector_status` starts over at the first sector. -/
def Fs.restart (sector : Nat) (fs : Fs) : Fs :=
  if sector = 0 then { fs with skipPages := 0, lastPagesAreActive := false } else fs

/-- `get_sector_status`: the status, and how many pages of the next sector to isolate. -/
def getSectorStatus (sector : Nat) : Prog Fs (SectorStatus × Nat) := do
  modify (Fs.restart sector)
  let fs ← get
  if fs.skipPages ≥ pagesPerSector then
    let skip := fs.skipPages - pagesPerSector
    modify fun fs => { fs with skipPages := skip }
    if fs.lastPagesAreActive then return (⟨pagesPerSector, 0, 0⟩, 0)
    else return (⟨0, pagesPerSector, 0⟩, if skip ≥ pagesPerSector then 0 else skip)
  else
    let start := pagesPerSector * sector
    let active := if fs.lastPagesAreActive then fs.skipPages else 0
    let obsolete := if fs.lastPagesAreActive then 0 else fs.skipPages
    let (stats, last) ← countPages fs.flash (start + pagesPerSector) (pagesPerSector + 1)
      (start + fs.skipPages) active obsolete fs.lastPagesAreActive
    let skip := stats.active + stats.obsolete + stats.free - pagesPerSector
    modify fun fs => { fs with skipPages := skip, lastPagesAreActive := last }
    return (stats.cap skip last, if last ∨ skip ≥ pagesPerSector then 0 else skip)

/-- The header of an isolated page. -/
def isolatedHeader : FileHeader :=
  { FileHeader.blank with flags := hdrFlagAllocated ||| hdrFlagIsolated }

/-- `isolate_pages`. -/
def isolatePages (start skip : Nat) (m : Mem) : Mem :=
  (List.range skip).foldl (fun m page => writeHeader m isolatedHeader (start + page)) m

/-- `GC_GREEDY` and `GC_RELUCTANT`. -/
inductive GcMode where
  | greedy
  | reluctant
deriving DecidableEq

/-- The loop of `collect_garbage`. -/
def collectSectors (mode : GcMode) : List Nat → Prog Fs Unit
  | [] => return
  | sector :: rest => do
    let (stats, isolation) ← getSectorStatus sector
    if stats.active > 0 then collectSectors mode rest
    else if (mode = .reluctant ∧ stats.free = 0) ∨ (mode = .greedy ∧ stats.obsolete > 0) then
      let first := pagesPerSector * sector
      modify fun fs =>
        { fs with
          nextFree := if first < fs.nextFree then first else fs.nextFree
          flash := erase (isolatePages (first + pagesPerSector) isolation fs.flash) sector }
      if mode = .reluctant ∧ isolation > 0 then return else collectSectors mode rest
    else collectSectors mode rest

/-- `collect_garbage`. -/
def collectGarbage (mode : GcMode) : Prog Fs Unit := collectSectors mode (List.range sectorCount)

/-! ## Free pages -/

/-- The loop of `find_contiguous_pages`. -/
def findPages (amount : Nat) : Nat → Nat → Option Nat → Prog Fs (Option Nat)
  | 0, _, _ => failure
  | fuel + 1, page, start => do
    if page < pageCount then
      let fs ← get
      let hdr := readHeader fs.flash page
      if hdr.free then
        let first := start.getD page
        if start = none ∧ first + amount ≥ pageCount then return none
        else if first + amount ≤ nextFile page hdr then
          modify fun fs =>
            { fs with nextFree := if first = fs.nextFree then first + amount else fs.nextFree }
          return some first
        else findPages amount fuel (nextFile page hdr) (some first)
      else findPages amount fuel (nextFile page hdr) none
    else return none

/-- `find_contiguous_pages`. -/
def findContiguousPages (amount : Nat) : Prog Fs (Option Nat) := do
  let fs ← get
  findPages amount (pageCount + 1) fs.nextFree none

end Adler.Coffee
