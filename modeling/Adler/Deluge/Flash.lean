/-
  The file behind a node: what `read_page` and `write_page` do to it when the file system does
  whole pages, and what `read_page` leaves alone in any case.
-/
import Adler.Deluge.Node

namespace Adler.Deluge

open Lib (Mem)

/-- Reading a page does not change the file's bytes, and never shortens it. -/
theorem readFile_file (env : Env) (pagenum : Nat) (buf : Mem) (f : File) :
    (readFile env pagenum buf f).2.2.data = f.data ∧
      f.len ≤ (readFile env pagenum buf f).2.2.len := by
  unfold readFile
  dsimp only
  split
  · cases env.xfer <;> exact ⟨rfl, Nat.le_max_left _ _⟩
  · exact ⟨rfl, Nat.le_refl _⟩

section

variable {env : Env} (pagenum : Nat) (f : File)

/-- What a successful `read_page` puts into the buffer: the page's bytes up to the file's end. -/
theorem readFile_buffer (h : env.FilesOk) (buf : Mem) :
    (readFile env pagenum buf f).2.1 =
      Mem.copy buf 0 (Mem.read f.data (pagenum * sPage)
        (min sPage ((cfsSeek (pagenum * sPage) f).len - pagenum * sPage))) := by
  obtain ⟨hseek, n, hn, hle⟩ := h
  unfold readFile
  simp only [hseek, if_true, hn]
  rw [Nat.min_eq_left hle]
  rfl

/-- A byte of a page that is read is the file's, unless it is behind the file's end. -/
theorem readFile_byte (h : env.FilesOk) (buf : Mem) {i : Nat} (hi : i < sPage)
    (hlen : pagenum * sPage + i < f.len) :
    (readFile env pagenum buf f).2.1 i = f.data (pagenum * sPage + i) := by
  have hseek : f.len ≤ (cfsSeek (pagenum * sPage) f).len := Nat.le_max_left _ _
  rw [readFile_buffer pagenum f h, Mem.copy_of_mem _ _ _ (Nat.zero_le i)
    (by rw [Mem.length_read]; omega), Nat.sub_zero, Mem.getD_read _ _ _ _ (by omega)]

variable {data : List UInt8}

theorem writeFile_data (h : env.FilesOk) (hdata : data.length = sPage) :
    (writeFile env pagenum data f).2.data = Mem.copy f.data (pagenum * sPage) data := by
  obtain ⟨hseek, n, hn, hle⟩ := h
  unfold writeFile
  simp only [hseek, if_true, hn]
  rw [List.take_of_length_le (by omega)]
  rfl

theorem writeFile_len (env : Env) : f.len ≤ (writeFile env pagenum data f).2.len := by
  unfold writeFile
  dsimp only
  split
  · cases env.xfer with
    | none => exact Nat.le_max_left _ _
    | some n => exact Nat.le_trans (Nat.le_max_left _ _) (Nat.le_max_left _ _)
  · exact Nat.le_refl _

/-- The page that was written. -/
theorem writeFile_read_self (h : env.FilesOk) (hdata : data.length = sPage) :
    Mem.read (writeFile env pagenum data f).2.data (pagenum * sPage) sPage = data := by
  rw [writeFile_data pagenum f h hdata, ← hdata, Mem.read_copy_self]

/-- Another page. -/
theorem writeFile_read_ne (h : env.FilesOk) (hdata : data.length = sPage) {i : Nat}
    (hi : i ≠ pagenum) :
    Mem.read (writeFile env pagenum data f).2.data (i * sPage) sPage =
      Mem.read f.data (i * sPage) sPage := by
  rw [writeFile_data pagenum f h hdata]
  apply Mem.read_copy_disjoint
  simp only [sPage] at hdata ⊢
  omega

end

end Adler.Deluge
