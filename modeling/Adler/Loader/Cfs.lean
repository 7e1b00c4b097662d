/-
  A file descriptor as the ELF loader uses it, and what a sequence of its operations leaves of the
  file.

  * `Fd.seek`, `Fd.read`, `Fd.write`: one call each. Which calls succeed is decided by `LoadEnv`.
  * `Fd.writes`: the calls of `cfs_write` so far, latest first. It is a ghost: no code reads it.
  * `Fd.Extends`: what holds between the descriptor before and after any of the loader's functions;
    the bytes that no logged write covers are unchanged.
-/
import Adler.Deluge.Node

namespace Adler.Loader

open Lib (Mem)
open Deluge (File cfsSeek cfsWrite)

/-- What the environment decides during one call of `codeload`. -/
structure LoadEnv where
  /-- `cfs_open` gives a descriptor. -/
  opened : Bool
  /-- Whether the file operation with this number, if it is a `cfs_seek`, reaches the offset. -/
  seek : Nat → Bool
  /-- The file operation with this number, if it is a `cfs_read` or `cfs_write`: `none` for -1, else
      the most bytes it moves. -/
  xfer : Nat → Option Nat
  /-- What the local structures and buffers of a function hold that is called after so many file
      operations, before they are first read into. -/
  stack : Nat → Nat → Mem
  /-- `symtab_lookup` in the symbols of the firmware; 0 is `NULL`. -/
  symtabLookup : List UInt8 → Nat
  /-- `datamemory`, which `elfloader_arch_allocate_ram` returns. -/
  datamemory : Nat
  /-- `textmemory`, which `elfloader_arch_allocate_rom` returns. -/
  textmemory : Nat

/-- A call of `cfs_write` in `elfloader_arch_relocate`. -/
structure Write where
  sectionOffset : Nat
  /-- `rela->r_offset`. -/
  rOffset : Nat
  /-- The `cfs_seek` before it reached its offset. -/
  reached : Bool
  /-- Where the descriptor stood. -/
  place : Nat
  /-- What was stored. -/
  bytes : List UInt8

/-- The byte at `p` is one of those stored. -/
def Write.Covers (w : Write) (p : Nat) : Prop := w.place ≤ p ∧ p < w.place + w.bytes.length

instance (w : Write) (p : Nat) : Decidable (w.Covers p) := inferInstanceAs (Decidable (_ ∧ _))

/-- An address of two bytes, stored where the relocation entry says if the file can be positioned
    there. -/
def Write.Relocates (w : Write) : Prop :=
  w.bytes.length ≤ 2 ∧ (w.reached = true → w.place = (w.sectionOffset + w.rOffset) % 4294967296)

/-- A descriptor: the file, the position in it, the number of operations so far, the writes. -/
structure Fd where
  file : File
  pos : Nat
  ops : Nat
  writes : List Write

namespace Fd

/-- `cfs_seek(fd, offset, CFS_SEEK_SET)`: whether it reached the offset. -/
def seek (env : LoadEnv) (offset : Nat) (fd : Fd) : Bool × Fd :=
  if env.seek fd.ops then
    (true, { fd with file := cfsSeek offset fd.file, pos := offset, ops := fd.ops + 1 })
  else (false, { fd with ops := fd.ops + 1 })

/-- `cfs_read(fd, buf, len)`. -/
def read (env : LoadEnv) (buf : Mem) (len : Nat) (fd : Fd) : Mem × Fd :=
  match env.xfer fd.ops with
  | none => (buf, { fd with ops := fd.ops + 1 })
  | some n =>
    let got := min (min len n) (fd.file.len - fd.pos)
    (Mem.copy buf 0 (Mem.read fd.file.data fd.pos got),
      { fd with pos := fd.pos + got, ops := fd.ops + 1 })

/-- `seek_read`; the offset is an `unsigned int`. -/
def seekRead (env : LoadEnv) (offset : Nat) (buf : Mem) (len : Nat) (fd : Fd) : Mem × Fd :=
  read env buf len (seek env (offset % 65536) fd).2

/-- `cfs_write(fd, data, sizeof(data))` for the relocation of a place in the section. -/
def write (env : LoadEnv) (sectionOffset rOffset : Nat) (reached : Bool) (data : List UInt8)
    (fd : Fd) : Fd :=
  match env.xfer fd.ops with
  | none => { fd with ops := fd.ops + 1 }
  | some n =>
    let block := data.take n
    { file := cfsWrite fd.pos block fd.file
      pos := fd.pos + block.length
      ops := fd.ops + 1
      writes := ⟨sectionOffset, rOffset, reached, fd.pos, block⟩ :: fd.writes }

/-- Some write stored a byte at `p`. -/
def Wrote (fd : Fd) (p : Nat) : Prop := ∃ w ∈ fd.writes, w.Covers p

instance (fd : Fd) (p : Nat) : Decidable (fd.Wrote p) :=
  inferInstanceAs (Decidable (∃ w ∈ fd.writes, _))

/-! ## What the operations keep -/

/-- `fd'` comes after `fd`: the file is not shorter, the log has grown by relocations, and bytes that
    no logged write covers are unchanged. -/
structure Extends (fd fd' : Fd) : Prop where
  len : fd.file.len ≤ fd'.file.len
  log : ∃ ws, fd'.writes = ws ++ fd.writes ∧ ∀ w ∈ ws, w.Relocates
  data : ∀ p, ¬ fd'.Wrote p → fd'.file.data p = fd.file.data p

/-- `fd'` comes after `fd` and nothing was written. -/
structure Reads (fd fd' : Fd) : Prop where
  len : fd.file.len ≤ fd'.file.len
  log : fd'.writes = fd.writes
  data : fd'.file.data = fd.file.data

variable {fd fd' fd'' : Fd}

theorem Reads.refl (fd : Fd) : fd.Reads fd := ⟨Nat.le_refl _, rfl, rfl⟩

theorem Reads.trans (h : fd.Reads fd') (h' : fd'.Reads fd'') : fd.Reads fd'' :=
  ⟨Nat.le_trans h.len h'.len, h'.log.trans h.log, h'.data.trans h.data⟩

theorem Reads.extends (h : fd.Reads fd') : fd.Extends fd' := by
  refine ⟨h.len, ⟨[], h.log, ?_⟩, fun p _ => congrFun h.data p⟩
  intro w hw
  cases hw

theorem Extends.wrote (h : fd.Extends fd') {p : Nat} (hp : fd.Wrote p) : fd'.Wrote p := by
  obtain ⟨ws, hlog, _⟩ := h.log
  obtain ⟨w, hw, hc⟩ := hp
  refine ⟨w, ?_, hc⟩
  rw [hlog]
  exact List.mem_append_right ws hw

theorem Extends.trans (h : fd.Extends fd') (h' : fd'.Extends fd'') : fd.Extends fd'' := by
  refine ⟨Nat.le_trans h.len h'.len, ?_, ?_⟩
  · obtain ⟨ws, hlog, hws⟩ := h.log
    obtain ⟨ws', hlog', hws'⟩ := h'.log
    refine ⟨ws' ++ ws, ?_, ?_⟩
    · rw [hlog', hlog, List.append_assoc]
    · intro w hw
      rcases List.mem_append.mp hw with hw | hw
      · exact hws' w hw
      · exact hws w hw
  · intro p hp
    have hmid : ¬ fd'.Wrote p := fun hw => hp (h'.wrote hw)
    exact (h'.data p hp).trans (h.data p hmid)

theorem seek_reads (env : LoadEnv) (offset : Nat) (fd : Fd) :
    fd.Reads (seek env offset fd).2 := by
  unfold seek
  split
  · exact ⟨Nat.le_max_left _ _, rfl, rfl⟩
  · exact ⟨Nat.le_refl _, rfl, rfl⟩

theorem read_reads (env : LoadEnv) (buf : Mem) (len : Nat) (fd : Fd) :
    fd.Reads (read env buf len fd).2 := by
  unfold read
  split
  · exact ⟨Nat.le_refl _, rfl, rfl⟩
  · exact ⟨Nat.le_refl _, rfl, rfl⟩

theorem seekRead_reads (env : LoadEnv) (offset : Nat) (buf : Mem) (len : Nat) (fd : Fd) :
    fd.Reads (seekRead env offset buf len fd).2 :=
  (seek_reads env (offset % 65536) fd).trans (read_reads env buf len _)

/-- A write changes the bytes it covers. -/
theorem write_extends (env : LoadEnv) {sectionOffset rOffset : Nat} {reached : Bool}
    {data : List UInt8} (hlen : data.length ≤ 2)
    (hplace : reached = true → fd.pos = (sectionOffset + rOffset) % 4294967296) :
    fd.Extends (write env sectionOffset rOffset reached data fd) := by
  unfold write
  split
  · exact (Reads.extends ⟨Nat.le_refl _, rfl, rfl⟩)
  · rename_i n _
    have hblock : (data.take n).length ≤ 2 := Nat.le_trans (List.length_take_le' n data) hlen
    refine ⟨Nat.le_max_left _ _, ⟨[_], rfl, ?_⟩, ?_⟩
    · intro w hw
      rw [List.mem_singleton.mp hw]
      exact ⟨hblock, hplace⟩
    · intro p hp
      apply Mem.copy_of_not_mem
      by_contra hin
      apply hp
      refine ⟨_, List.mem_cons_self, ?_⟩
      show fd.pos ≤ p ∧ p < fd.pos + (data.take n).length
      omega

end Fd

end Adler.Loader
