/-
  What `cfs_read` finds: the byte of a file at an offset is in the last record of its region, or in
  the extent when the region has no record.

  * `getRecordIndex_eq`: the batches of `get_record_index` amount to one search downwards.
  * `visible`: the file as a memory.
  * `cfsRead_ends`: a read gives the visible bytes up to the end of the file.
-/
import Adler.Coffee.Log

namespace Adler.Coffee

open Lib (Mem Prog Ends)

variable {m m' : Mem} {fs : Fs}

/-! ## The index of the log -/

/-- Entry `k` of the region index table names the region. -/
def named (m : Mem) (logPage region k : Nat) : Bool :=
  (u16 m (absoluteOffset logPage (2 * k)) + 65535) % 65536 = region

theorem getRecordIndex_eq {logPage search region : Nat} (h : search ≤ logTableLimit) :
    getRecordIndex m logPage search region =
      (List.range search).reverse.find? (named m logPage region) := by
  have hbase : absoluteOffset logPage (2 * search) - search * 2 = absoluteOffset logPage 0 := by
    simp only [absoluteOffset, headerSize, pageSize]
    omega
  have hentry : (fun i => decide ((u16 m (absoluteOffset logPage 0 + 2 * i) + 65535) % 65536 = region)) =
      named m logPage region := rfl
  unfold getRecordIndex searchRecords
  rw [if_neg (Nat.not_lt.mpr h)]
  rcases Nat.eq_zero_or_pos search with rfl | hpos
  · rfl
  · rw [if_pos hpos, if_neg (by omega)]
    dsimp only
    rw [hbase, hentry]
    match hfind : (List.range search).reverse.find? (named m logPage region) with
    | some i =>
      have hi := List.mem_range.mp (List.mem_reverse.mp (List.mem_of_find?_eq_some hfind))
      simp only [Option.some.injEq]
      omega
    | none =>
      obtain ⟨n, rfl⟩ : ∃ n, search = n + 1 := ⟨search - 1, by omega⟩
      dsimp only
      unfold searchRecords
      rw [if_neg (by omega)]

/-- The last record is looked at first. -/
theorem getRecordIndex_succ {logPage n region : Nat} (h : n + 1 ≤ logTableLimit) :
    getRecordIndex m logPage (n + 1) region =
      if named m logPage region n then some n else getRecordIndex m logPage n region := by
  rw [getRecordIndex_eq h, getRecordIndex_eq (by omega), List.range_succ, List.reverse_append,
    List.reverse_singleton, List.singleton_append, List.find?_cons]
  cases named m logPage region n <;> rfl

theorem getRecordIndex_lt {logPage search region k : Nat} (h : search ≤ logTableLimit)
    (hk : getRecordIndex m logPage search region = some k) : k < search := by
  rw [getRecordIndex_eq h] at hk
  exact List.mem_range.mp (List.mem_reverse.mp (List.mem_of_find?_eq_some hk))

theorem getRecordIndex_congr {logPage search region : Nat} (h : search ≤ logTableLimit)
    (hm : ∀ i, i < 2 * search → m' (absoluteOffset logPage i) = m (absoluteOffset logPage i)) :
    getRecordIndex m' logPage search region = getRecordIndex m logPage search region := by
  induction search with
  | zero => rfl
  | succ n ih =>
    rw [getRecordIndex_succ h, getRecordIndex_succ h, ih (by omega) (fun i hi => hm i (by omega))]
    have h0 := hm (2 * n) (by omega)
    have h1 := hm (2 * n + 1) (by omega)
    have hnamed : named m' logPage region n = named m logPage region n := by
      have hnext : absoluteOffset logPage (2 * n) + 1 = absoluteOffset logPage (2 * n + 1) := rfl
      rw [named, named, u16, u16, hnext, h0, h1]
    rw [hnamed]

/-! ## The visible file -/

/-- The log of the file has the sizes of the platform: 4 records of 256 bytes. -/
def FileHeader.Standard (hdr : FileHeader) : Prop := hdr.logRecordSize = 0 ∧ hdr.logRecords = 0

theorem adjustLogConfig_standard {hdr : FileHeader} (h : hdr.Standard) :
    adjustLogConfig hdr = (256, 4) := by
  simp only [adjustLogConfig, h.1, h.2]
  rfl

/-- The record with the byte at `off`. -/
def recordOf (m : Mem) (file : File) (off : Nat) : Option Nat :=
  if file.modified then
    getRecordIndex m (readHeader m file.page).logPage file.recordCount.toNat (off / 256)
  else none

/-- The byte of the file at `off`. -/
def visible (m : Mem) (file : File) (off : Nat) : UInt8 :=
  match recordOf m file off with
  | some k => m (absoluteOffset (readHeader m file.page).logPage (8 + 256 * k + off % 256))
  | none => m (absoluteOffset file.page off)

theorem visible_unmodified {file : File} (h : file.modified = false) (off : Nat) :
    visible m file off = m (absoluteOffset file.page off) := by
  simp only [visible, recordOf, h, Bool.false_eq_true, if_false]

/-- What `cfs_read` takes for one record's part of the buffer. -/
theorem readLogPage_part {file : File} (hmod : file.modified = true) (hrc : 0 ≤ file.recordCount)
    (hstd : (readHeader m file.page).Standard) (off left : Nat) :
    let r := readLogPage m (readHeader m file.page) file.recordCount ⟨off, left⟩
    r.1.getD (m.read (absoluteOffset file.page off) r.2.size) =
      Mem.read (visible m file) off (min left (256 - off % 256)) := by
  have hsize : (if left > 256 - off % 256 then 256 - off % 256 else left) =
      min left (256 - off % 256) := by
    split <;> omega
  have hsame : ∀ i, i < min left (256 - off % 256) →
      (off + i) / 256 = off / 256 ∧ (off + i) % 256 = off % 256 + i := by
    intro i hi
    omega
  have hrec : ∀ i, i < min left (256 - off % 256) →
      recordOf m file (off + i) = getRecordIndex m (readHeader m file.page).logPage
        file.recordCount.toNat (off / 256) := by
    intro i hi
    rw [recordOf, if_pos hmod, (hsame i hi).1]
  simp only [readLogPage, adjustLogConfig_standard hstd, modifyLogBuffer, if_neg (Int.not_lt.mpr hrc),
    hsize]
  match hidx : getRecordIndex m (readHeader m file.page).logPage file.recordCount.toNat (off / 256) with
  | none =>
    dsimp only [Option.getD_none]
    rw [Mem.read_eq_iff]
    intro i hi
    simp only [visible, hrec i hi, hidx, absoluteOffset, Nat.add_assoc]
  | some k =>
    dsimp only [Option.getD_some]
    rw [Mem.read_eq_iff]
    intro i hi
    simp only [visible, hrec i hi, hidx, (hsame i hi).2, absoluteOffset]
    congr 1
    omega

/-- The loop of `cfs_read` takes the visible bytes part by part. -/
theorem readLoop_ends {fd i : Nat} (hmod : (fs.files i).modified = true)
    (hrc : 0 ≤ (fs.files i).recordCount) (hstd : (readHeader fs.flash (fs.files i).page).Standard)
    (fuel left : Nat) (buf : List UInt8) (hfuel : left ≤ fuel) :
    Ends (readLoop fd i (readHeader fs.flash (fs.files i).page) fuel left buf) fs fun r fs' =>
      r = buf ++ Mem.read (visible fs.flash (fs.files i)) (fs.fds fd).offset left ∧
        fs' = fs.setFd fd { fs.fds fd with offset := (fs.fds fd).offset + left } := by
  induction fuel generalizing fs left buf with
  | zero =>
    obtain rfl : left = 0 := Nat.le_zero.mp hfuel
    refine Ends.ret ⟨?_, ?_⟩
    · simp [Mem.read]
    · simp [Fs.setFd]
  | succ fuel ih =>
    unfold readLoop
    by_cases hleft : left = 0
    · subst hleft
      refine Ends.ret ⟨?_, ?_⟩
      · simp [Mem.read]
      · simp [Fs.setFd]
    · rw [if_neg hleft]
      refine Ends.load ?_
      dsimp only
      rw [readLogPage_part hmod hrc hstd, Mem.length_read]
      refine Ends.update ((@ih (fs.setFd fd _) hmod hrc hstd _ _ ?_).mono ?_)
      · omega
      · rintro r fs' ⟨rfl, rfl⟩
        have hsplit : left = min left (256 - (fs.fds fd).offset % 256) +
            (left - min left (256 - (fs.fds fd).offset % 256)) := by omega
        refine ⟨?_, ?_⟩
        · rw [Fs.fds_setFd_self, List.append_assoc]
          congr 1
          conv_rhs => rw [hsplit, Mem.read_add]
          rfl
        · rw [Fs.setFd_setFd, Fs.fds_setFd_self]
          dsimp only
          rw [Nat.add_assoc, ← hsplit]

/-- `cfs_read` of an open file gives its visible bytes up to the end. -/
theorem cfsRead_ends {fd i e : Nat} (hfd : fd < fdSetSize)
    (hflags : (fs.fds fd).flags &&& flagRead ≠ 0) (hfile : (fs.fds fd).file = some i)
    (he : (fs.files i).fileEnd = e) (hle : (fs.fds fd).offset ≤ e) (hsmall : e < 65536)
    (hmod : (fs.files i).modified = true →
      0 ≤ (fs.files i).recordCount ∧ (readHeader fs.flash (fs.files i).page).Standard)
    (size : Nat) :
    Ends (cfsRead fd size) fs fun r fs' =>
      r = some (Mem.read (visible fs.flash (fs.files i)) (fs.fds fd).offset
        (min size (e - (fs.fds fd).offset))) ∧
      fs' = fs.setFd fd { fs.fds fd with
        offset := (fs.fds fd).offset + min size (e - (fs.fds fd).offset) } := by
  have hvalid : fs.fdValid fd = true := Fs.fdValid_iff.mpr ⟨hfd, ne_zero_of_and hflags⟩
  have hsize : (if ((fs.fds fd).offset + size : Int) > (fs.files i).fileEnd then
      (((fs.files i).fileEnd - (fs.fds fd).offset) % 65536).toNat else size) =
      min size (e - (fs.fds fd).offset) := by
    rw [he]
    split <;> omega
  unfold cfsRead
  refine Ends.load ?_
  rw [hvalid, decide_eq_true hflags, Bool.true_and, Bool.not_true, if_neg Bool.false_ne_true, hfile]
  dsimp only
  rw [hsize]
  match hm : (fs.files i).modified with
  | false =>
    rw [Bool.not_false, if_pos rfl]
    refine Ends.update (Ends.ret ⟨?_, rfl⟩)
    rw [Option.some.injEq, Mem.read_eq_iff]
    intro j _
    rw [visible_unmodified hm]
    simp only [absoluteOffset, Nat.add_assoc]
  | true =>
    obtain ⟨hrc, hstd⟩ := hmod hm
    rw [Bool.not_true, if_neg Bool.false_ne_true]
    refine Ends.seq (readLoop_ends hm hrc hstd _ _ [] le_rfl) ?_
    rintro _ _ ⟨rfl, rfl⟩
    exact Ends.ret ⟨by rw [List.nil_append], rfl⟩

end Adler.Coffee
