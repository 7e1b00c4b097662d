/-
  Micro logs, merges and the file operations of Coffee (`core/cfs/cfs-coffee.c`), with
  `COFFEE_IO_SEMANTICS` set as the platform has it.

  A buffer handed to the file system is the list of its bytes. `cfs_read` gives the bytes it stored,
  so their number is its result; `none` is -1.
-/
import Adler.Coffee.Files

namespace Adler.Coffee

open Lib (Mem Prog Ends)

/-- `CFS_READ`. -/
@[simp] abbrev flagRead : UInt8 := 1

/-- `CFS_WRITE`. -/
@[simp] abbrev flagWrite : UInt8 := 2

/-- `CFS_APPEND`. -/
@[simp] abbrev flagAppend : UInt8 := 4

/-- `CFS_COFFEE_IO_FLASH_AWARE`. -/
@[simp] abbrev ioFlashAware : UInt8 := 1

/-- `CFS_COFFEE_IO_FIRM_SIZE`. -/
@[simp] abbrev ioFirmSize : UInt8 := 2

/-! ## The log -/

/-- `adjust_log_config`: record size and number of records. -/
def adjustLogConfig (hdr : FileHeader) : Nat × Nat :=
  let size := if hdr.logRecordSize = 0 then pageSize else hdr.logRecordSize
  (size, if hdr.logRecords = 0 then logSize / size else hdr.logRecords)

/-- `struct log_param` without the buffer. -/
structure LogParam where
  offset : Nat
  size : Nat

/-- `modify_log_buffer`: the region, and the part of the buffer that lies in it. -/
def modifyLogBuffer (recordSize : Nat) (lp : LogParam) : Nat × LogParam :=
  let offset := lp.offset % recordSize
  (lp.offset / recordSize, ⟨offset, if lp.size > recordSize - offset then recordSize - offset else lp.size⟩)

/-- The loops of `get_record_index`: batches from the last index on, each searched downwards. -/
def searchRecords (m : Mem) (region searchRecords : Nat) :
    Nat → Nat → Nat → Nat → Option Nat
  | 0, _, _, _ => none
  | fuel + 1, base, processed, batchSize =>
    if processed < searchRecords then
      let batchSize := if batchSize + processed > searchRecords then searchRecords - processed
        else batchSize
      let base := base - batchSize * 2
      match (List.range batchSize).reverse.find? fun i =>
          (u16 m (base + 2 * i) + 65535) % 65536 = region with
      | some i => some (searchRecords - processed - (batchSize - i))
      | none => Coffee.searchRecords m region searchRecords fuel base (processed + batchSize) batchSize
    else none

/-- `get_record_index`. -/
def getRecordIndex (m : Mem) (logPage search region : Nat) : Option Nat :=
  searchRecords m region search (search + 1) (absoluteOffset logPage (2 * search)) 0
    (if search > logTableLimit then logTableLimit else search)

/-- `read_log_page`: the bytes of the record, if there is one, and the parameters as it leaves
    them. -/
def readLogPage (m : Mem) (hdr : FileHeader) (recordCount : Int) (lp : LogParam) :
    Option (List UInt8) × LogParam :=
  let (recordSize, records) := adjustLogConfig hdr
  let (region, lp) := modifyLogBuffer recordSize lp
  let search := if recordCount < 0 then records else recordCount.toNat
  match getRecordIndex m hdr.logPage search region with
  | none => (none, lp)
  | some index =>
    (some (m.read (absoluteOffset hdr.logPage (records * 2) + index * recordSize + lp.offset) lp.size),
      lp)

/-- `create_log`: the page of the log and the header as it leaves it. -/
def createLog (i : Nat) (hdr : FileHeader) : Prog Fs (Option (Nat × FileHeader)) := do
  let (recordSize, records) := adjustLogConfig hdr
  match ← reserve hdr.name (pagesFor (records * (2 + recordSize))) hdrFlagLog with
  | none => return none
  | some j =>
    let fs ← get
    let hdr := { hdr with
      flags := hdr.flags ||| hdrFlagModified
      logPage := (fs.files j).page }
    modify fun fs => fs.setFlash (writeHeader fs.flash hdr (fs.files i).page)
    modify fun fs => fs.setFile i { fs.files i with modified := true }
    return some ((fs.files j).page, hdr)

/-- The loop of `find_next_record`, which goes on with the next batch when it has found a free
    record. -/
def searchNextRecord (m : Mem) (logPage records batch : Nat) : Nat → Nat → Nat → Nat
  | 0, _, found => found
  | fuel + 1, processed, found =>
    if processed < records then
      let size := if records - processed ≥ batch then batch else records - processed
      let found := match (List.range size).find? fun i =>
          u16 m (absoluteOffset logPage (2 * (processed + i))) = 0 with
        | some i => i + processed
        | none => size
      searchNextRecord m logPage records batch fuel (processed + size) found
    else found

/-- `find_next_record`. -/
def findNextRecord (m : Mem) (file : File) (logPage records : Nat) : Nat :=
  if file.recordCount ≥ 0 then file.recordCount.toNat
  else searchNextRecord m logPage records
    (if records > logTableLimit then logTableLimit else records) (records + 1) 0 records

/-! ## Descriptors -/

/-- `get_available_fd`. -/
def getAvailableFd (fs : Fs) : Option Nat :=
  (List.range fdSetSize).find? fun i => (fs.fds i).flags = 0

/-- `FD_VALID`. -/
def Fs.fdValid (fs : Fs) (fd : Nat) : Bool := fd < fdSetSize && (fs.fds fd).flags ≠ 0

theorem Fs.fdValid_iff {fs : Fs} {fd : Nat} :
    fs.fdValid fd = true ↔ fd < fdSetSize ∧ (fs.fds fd).flags ≠ 0 := by
  rw [Fs.fdValid, Bool.and_eq_true, decide_eq_true_eq, decide_eq_true_eq]

/-- The end of `cfs_open`, for the file in slot `i`. -/
def openFd (fd i : Nat) (flags : UInt8) : Prog Fs (Option Nat) := do
  modify fun fs => fs.setFd fd
    { fs.fds fd with
      flags := flags
      file := some i
      offset := if flags &&& flagAppend ≠ 0 then (fs.files i).fileEnd.toNat else 0 }
  modify fun fs => fs.setFile i { fs.files i with references := (fs.files i).references + 1 }
  return some fd

/-- `cfs_open`. -/
def cfsOpen (name : List UInt8) (flags : UInt8) : Prog Fs (Option Nat) := do
  let fs ← get
  match getAvailableFd fs with
  | none => return none
  | some fd =>
    match ← findFile name with
    | some i =>
      modify fun fs => if (fs.files i).fileEnd = -1
        then fs.setFile i { fs.files i with fileEnd := endOfFile fs.flash (fs.files i).page } else fs
      openFd fd i flags
    | none =>
      modify fun fs => fs.setFd fd { fs.fds fd with file := none }
      if flags &&& (flagRead ||| flagWrite) = flagRead then return none
      else
        match ← reserve name (pagesFor dynSize) 0 with
        | none => return none
        | some i =>
          modify fun fs => fs.setFile i { fs.files i with fileEnd := 0 }
          openFd fd i flags

/-- `cfs_close`; the file of a descriptor in use is never `NULL`. -/
def cfsClose (fd : Nat) : Prog Fs Unit := do
  let fs ← get
  if fs.fdValid fd then
    match (fs.fds fd).file with
    | none => failure
    | some i =>
      modify fun fs => fs.setFd fd { fs.fds fd with flags := 0, file := none }
      modify fun fs => fs.setFile i { fs.files i with references := (fs.files i).references - 1 }

/-- `CFS_SEEK_SET`, `CFS_SEEK_CUR` and `CFS_SEEK_END`. -/
inductive Whence where
  | set
  | cur
  | end_

/-- `cfs_seek`; `none` is -1. -/
def cfsSeek (fd : Nat) (offset : Int) (whence : Whence) : Prog Fs (Option Nat) := do
  let fs ← get
  if !fs.fdValid fd then return none
  else
    match (fs.fds fd).file with
    | none => failure
    | some i =>
      let file := fs.files i
      let new : Int := match whence with
        | .set => offset
        | .end_ => file.fileEnd + offset
        | .cur => (fs.fds fd).offset + offset
      if new < 0 ∨ new > pageSize * file.maxPages then return none
      else
        modify fun fs => if file.fileEnd < new
          then fs.setFile i { file with fileEnd := new } else fs
        modify fun fs => fs.setFd fd { fs.fds fd with offset := new.toNat }
        return some new.toNat

/-- The loop of `cfs_read` over a file with a log; `left` bytes are missing in `buf`. -/
def readLoop (fd i : Nat) (hdr : FileHeader) :
    Nat → Nat → List UInt8 → Prog Fs (List UInt8)
  | 0, left, buf => if left = 0 then return buf else failure
  | fuel + 1, left, buf => do
    if left = 0 then return buf
    else
      let fs ← get
      let offset := (fs.fds fd).offset
      let (r, lp) := readLogPage fs.flash hdr (fs.files i).recordCount ⟨offset, left⟩
      let part := r.getD (fs.flash.read (absoluteOffset (fs.files i).page offset) lp.size)
      modify fun fs => fs.setFd fd { fs.fds fd with offset := offset + part.length }
      readLoop fd i hdr fuel (left - part.length) (buf ++ part)

/-- `cfs_read`. -/
def cfsRead (fd size : Nat) : Prog Fs (Option (List UInt8)) := do
  let fs ← get
  if !(fs.fdValid fd && (fs.fds fd).flags &&& flagRead ≠ 0) then return none
  else
    match (fs.fds fd).file with
    | none => failure
    | some i =>
      let file := fs.files i
      let offset := (fs.fds fd).offset
      let size := if (offset + size : Int) > file.fileEnd
        then ((file.fileEnd - offset) % 65536).toNat else size
      if !file.modified then
        modify fun fs => fs.setFd fd { fs.fds fd with offset := offset + size }
        return some (fs.flash.read (absoluteOffset file.page offset) size)
      else
        return some (← readLoop fd i (readHeader fs.flash file.page) size size [])

/-! ## Merges and writes -/

/-- The copy loop of `merge_log`: what was copied, or `none` when `cfs_read` fails. -/
def copyLoop (fd size page : Nat) : Nat → Nat → Prog Fs (Option Nat)
  | 0, _ => failure
  | fuel + 1, offset => do
    match ← cfsRead fd size with
    | none => return none
    | some buf =>
      if buf.length = 0 then return some offset
      else
        modify fun fs => fs.setFlash (pwrite fs.flash (absoluteOffset page offset) buf)
        copyLoop fd size page fuel (offset + buf.length)

/-- The descriptor is open, and its file is the one at `filePage`. -/
def Fs.openOn (fs : Fs) (filePage fd : Nat) : Bool :=
  (fs.fds fd).flags ≠ 0 && (fs.fds fd).file.any fun i => (fs.files i).page = filePage

/-- The loop of `merge_log` that moves the open descriptors of the file to slot `j`. -/
def repoint (filePage j : Nat) (fs : Fs) : Fs :=
  (List.range fdSetSize).foldl (fun fs fd =>
    if fs.openOn filePage fd then
      (fs.setFd fd { fs.fds fd with file := some j }).setFile j
        { fs.files j with references := (fs.files j).references + 1 }
    else fs) fs

/-- `merge_log`. -/
def mergeLog (filePage extend : Nat) : Prog Fs Int := do
  let fs ← get
  let hdr := readHeader fs.flash filePage
  match ← cfsOpen hdr.name flagRead with
  | none => return -1
  | some fd =>
    match ← reserve hdr.name (hdr.maxPages <<< extend) 0 with
    | none =>
      cfsClose fd
      return -1
    | some j =>
      let fs ← get
      let newPage := (fs.files j).page
      match ← copyLoop fd (adjustLogConfig hdr).1 newPage (pageSize * pageCount) 0 with
      | none =>
        let _ ← removeExtent newPage false
        cfsClose fd
        return -1
      | some offset =>
        modify (repoint filePage j)
        let r ← removeByPage filePage false
        if r < 0 then
          let _ ← removeExtent newPage false
          cfsClose fd
          return -1
        else
          modify fun fs => fs.setFlash (writeHeader fs.flash
            { readHeader fs.flash newPage with
              logRecordSize := hdr.logRecordSize
              logRecords := hdr.logRecords } newPage)
          modify fun fs => fs.setFile j { fs.files j with modified := false, fileEnd := offset }
          cfsClose fd
          return 0

/-- `write_log_page` from where the record is known. -/
def writeRecord (i : Nat) (hdr : FileHeader) (logPage logRecord region : Nat) (lp : LogParam)
    (buf : List UInt8) : Prog Fs Int := do
  let (recordSize, records) := adjustLogConfig hdr
  let fs ← get
  let file := fs.files i
  let offset := region * recordSize
  let old := if lp.offset > 0 ∨ lp.size ≠ recordSize then
      (readLogPage fs.flash hdr logRecord ⟨offset, recordSize⟩).1.getD
        (fs.flash.read (absoluteOffset file.page offset) recordSize)
    else List.replicate recordSize 0
  let copyBuf := old.take lp.offset ++ buf.take lp.size ++ old.drop (lp.offset + lp.size)
  modify fun fs => fs.setFlash (pwrite fs.flash (absoluteOffset logPage (logRecord * 2))
    (u16Bytes (region + 1)))
  modify fun fs => fs.setFlash (pwrite fs.flash
    (absoluteOffset logPage (records * 2 + logRecord * recordSize)) copyBuf)
  modify fun fs => fs.setFile i { fs.files i with recordCount := logRecord + 1 }
  return lp.size

/-- `write_log_page`. -/
def writeLogPage (i offset : Nat) (buf : List UInt8) : Prog Fs Int := do
  let fs ← get
  let file := fs.files i
  let hdr := readHeader fs.flash file.page
  let (recordSize, records) := adjustLogConfig hdr
  let (region, lp) := modifyLogBuffer recordSize ⟨offset, buf.length⟩
  if hdr.check hdrFlagModified then
    let logRecord := findNextRecord fs.flash file hdr.logPage records
    if logRecord ≥ records then mergeLog file.page 0
    else writeRecord i hdr hdr.logPage logRecord region lp buf
  else
    match ← createLog i hdr with
    | none => return -1
    | some (logPage, hdr) => writeRecord i hdr logPage 0 region lp buf

/-- The loop of `cfs_write` that extends the file. -/
def extendLoop (fd size : Nat) : Nat → Prog Fs Bool
  | 0 => failure
  | fuel + 1 => do
    let fs ← get
    match (fs.fds fd).file with
    | none => failure
    | some i =>
      if size + (fs.fds fd).offset + headerSize > pageSize * (fs.files i).maxPages then
        let r ← mergeLog (fs.files i).page 1
        if r < 0 then return false else extendLoop fd size fuel
      else return true

/-- The loop of `cfs_write` over the log; `false` when nothing could be written. -/
def logLoop (fd size : Nat) : Nat → List UInt8 → Prog Fs Bool
  | 0, buf => if buf.length = 0 then return true else failure
  | fuel + 1, buf => do
    if buf.length = 0 then return true
    else
      let fs ← get
      match (fs.fds fd).file with
      | none => failure
      | some i =>
        let r ← writeLogPage i (fs.fds fd).offset buf
        if r < 0 then return buf.length ≠ size
        else if r = 0 then logLoop fd size fuel buf
        else
          modify fun fs => fs.setFd fd
            { fs.fds fd with offset := (fs.fds fd).offset + r.toNat }
          modify fun fs => fs.setFile i
            { fs.files i with fileEnd := max (fs.files i).fileEnd (fs.fds fd).offset }
          logLoop fd size fuel (buf.drop r.toNat)

/-- `cfs_write`; `none` is -1. -/
def cfsWrite (fd : Nat) (buf : List UInt8) : Prog Fs (Option Nat) := do
  let fs ← get
  if !(fs.fdValid fd && (fs.fds fd).flags &&& flagWrite ≠ 0) then return none
  else
    let fits ← if (fs.fds fd).ioFlags &&& ioFirmSize = 0
      then extendLoop fd buf.length 16 else pure true
    if !fits then return none
    else
      let fs ← get
      match (fs.fds fd).file with
      | none => failure
      | some i =>
        let file := fs.files i
        let offset := (fs.fds fd).offset
        if (fs.fds fd).ioFlags &&& ioFlashAware = 0 ∧ (file.modified ∨ (offset : Int) < file.fileEnd)
        then
          if !(← logLoop fd buf.length (2 * buf.length + 2) buf) then return none
          else
            modify fun fs => match (fs.fds fd).file with
              | none => fs
              | some i =>
                if ((fs.fds fd).offset : Int) > (fs.files i).fileEnd then
                  fs.setFlash (pwrite fs.flash (absoluteOffset (fs.files i).page (fs.fds fd).offset)
                    [0xff])
                else fs
        else
          modify fun fs => fs.setFlash (pwrite fs.flash (absoluteOffset file.page offset) buf)
          modify fun fs => fs.setFd fd { fs.fds fd with offset := offset + buf.length }
        modify fun fs => match (fs.fds fd).file with
          | none => fs
          | some i => fs.setFile i
            { fs.files i with fileEnd := max (fs.files i).fileEnd (fs.fds fd).offset }
        return some buf.length

/-! ## Formatting -/

/-- `cfs_coffee_format`. -/
def cfsCoffeeFormat : Prog Fs Unit :=
  modify fun fs =>
    { fs with
      flash := fun i => if i < sectorSize * sectorCount then 0 else fs.flash i
      files := fun _ => ⟨0, 0, 0, 0, 0, false⟩
      fds := fun _ => ⟨0, none, 0, 0⟩
      nextFree := 0
      gcWait := false }

end Adler.Coffee
