/-
  The cached files of Coffee: finding, loading, reserving and removing a file
  (`core/cfs/cfs-coffee.c`).

  A name is what the `char *` points at, at least the 15 bytes that `reserve` copies; what counts
  for a comparison ends before the first 0.
-/
import Adler.Coffee.Sectors

namespace Adler.Coffee

open Lib (Mem Prog Ends)

/-- `COFFEE_MAX_OPEN_FILES`. -/
@[simp] abbrev maxOpenFiles : Nat := 6

/-- `COFFEE_FD_SET_SIZE`. -/
@[simp] abbrev fdSetSize : Nat := 8

/-- `FILE_FREE`. -/
def File.free (file : File) : Bool := file.maxPages = 0

/-- `FILE_UNREFERENCED`. -/
def File.unreferenced (file : File) : Bool := file.references = 0

/-- The C string in a buffer. -/
def cString (name : List UInt8) : List UInt8 := name.takeWhile (· ≠ 0)

/-- The slot `load_file` takes: the first free one, else the last that nobody references. -/
def loadSlot (files : Nat → File) : Option Nat :=
  match (List.range maxOpenFiles).find? fun i => (files i).free with
  | some i => some i
  | none => (List.range maxOpenFiles).reverse.find? fun i => (files i).unreferenced

/-- `load_file`; `references` keeps its value. -/
def loadFile (start : Nat) (hdr : FileHeader) : Prog Fs (Option Nat) := do
  let fs ← get
  match loadSlot fs.files with
  | none => return none
  | some i =>
    modify (Fs.setFile i
      { page := start
        fileEnd := -1
        maxPages := hdr.maxPages
        modified := hdr.check hdrFlagModified
        recordCount := -1
        references := (fs.files i).references })
    return some i

/-- The test of `find_file` on a header. -/
def FileHeader.named (name : List UInt8) (hdr : FileHeader) : Bool :=
  hdr.active && !hdr.check hdrFlagLog && cString name == cString hdr.name

/-- The test of `find_file` on a cached file. -/
def Fs.caches (fs : Fs) (name : List UInt8) (i : Nat) : Bool :=
  !(fs.files i).free && (readHeader fs.flash (fs.files i).page).named name

/-- The scan of `find_file` over the flash. -/
def scanFiles (name : List UInt8) : Nat → Nat → Prog Fs (Option Nat)
  | 0, _ => failure
  | fuel + 1, page => do
    if page < pageCount then
      let fs ← get
      let hdr := readHeader fs.flash page
      if hdr.named name then loadFile page hdr
      else scanFiles name fuel (nextFile page hdr)
    else return none

/-- `find_file`. -/
def findFile (name : List UInt8) : Prog Fs (Option Nat) := do
  let fs ← get
  match (List.range maxOpenFiles).find? (fs.caches name) with
  | some i => return some i
  | none => scanFiles name (pageCount + 1) 0

/-- `file_end`: the last byte of the extent that is not 0. -/
def endOfFile (m : Mem) (start : Nat) : Int :=
  let hdr := readHeader m start
  match (List.range (pageSize * hdr.maxPages)).reverse.find? fun i => m (pageSize * start + i) ≠ 0 with
  | none => 0
  | some i => if i < headerSize then 0 else 1 + i - headerSize

/-- `page_count`. -/
def pagesFor (size : Nat) : Nat := (size + headerSize + pageSize - 1) / pageSize

/-- `remove_by_page` from where the header is marked. -/
def markObsolete (hdr : FileHeader) (page : Nat) (closeFds : Bool) : Prog Fs Unit := do
  modify fun fs =>
    { fs with
      flash := writeHeader fs.flash { hdr with flags := hdr.flags ||| hdrFlagObsolete } page
      gcWait := false }
  if closeFds then
    modify fun fs => { fs with
      fds := fun i => if i < fdSetSize ∧ (fs.fds i).file.any (fun j => (fs.files j).page = page)
        then { fs.fds i with flags := 0 } else fs.fds i }
  modify fun fs => { fs with
    files := fun i => if i < maxOpenFiles ∧ (fs.files i).page = page
      then { fs.files i with page := invalidPage, references := 0, maxPages := 0 } else fs.files i }

/-- `remove_by_page` without `REMOVE_LOG`. -/
def removeExtent (page : Nat) (closeFds : Bool) : Prog Fs Int := do
  let fs ← get
  let hdr := readHeader fs.flash page
  if !hdr.active then return -1
  else
    markObsolete hdr page closeFds
    return 0

/-- `remove_by_page` with `REMOVE_LOG`. -/
def removeByPage (page : Nat) (closeFds : Bool) : Prog Fs Int := do
  let fs ← get
  let hdr := readHeader fs.flash page
  if !hdr.active then return -1
  else if hdr.check hdrFlagModified then
    let r ← removeExtent hdr.logPage false
    if r < 0 then return -1
    else
      markObsolete hdr page closeFds
      return 0
  else
    markObsolete hdr page closeFds
    return 0

/-- The name as `reserve` copies it into a header. -/
def storedName (name : List UInt8) : List UInt8 := (name ++ List.replicate 15 0).take 15 ++ [0]

/-- The header that `reserve` writes. -/
def reservedHeader (name : List UInt8) (pages : Nat) (flags : UInt8) : FileHeader :=
  { FileHeader.blank with
    name := storedName name
    maxPages := pages
    flags := hdrFlagAllocated ||| flags }

/-- `reserve` with `allow_duplicates`, from where the pages are found. -/
def reserveAt (name : List UInt8) (pages : Nat) (flags : UInt8) (page : Nat) :
    Prog Fs (Option Nat) := do
  let hdr := reservedHeader name pages flags
  modify fun fs => fs.setFlash (writeHeader fs.flash hdr page)
  match ← loadFile page hdr with
  | none => return none
  | some i =>
    modify fun fs => fs.setFile i { fs.files i with fileEnd := 0 }
    return some i

/-- `reserve` with `allow_duplicates`, which all calls but `cfs_coffee_reserve` set. -/
def reserve (name : List UInt8) (pages : Nat) (flags : UInt8) : Prog Fs (Option Nat) := do
  match ← findContiguousPages pages with
  | some page => reserveAt name pages flags page
  | none =>
    let fs ← get
    if fs.gcWait then return none
    else
      collectGarbage .greedy
      match ← findContiguousPages pages with
      | some page => reserveAt name pages flags page
      | none =>
        modify fun fs => { fs with gcWait := true }
        return none

end Adler.Coffee
