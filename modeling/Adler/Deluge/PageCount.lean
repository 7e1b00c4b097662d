/-
  The page count of an object the gateway starts from a file. `file_size` gives a 32-bit offset, or -1
  when the second `cfs_open` fails; it is stored in the `uint16_t size` and rounded up to pages in 16-bit
  arithmetic.

  * `disseminate_table`: whatever the count is, the table has that many records, all initialised.
  * `pageCount_iff`: it is the number of pages of the file exactly up to 255 pages, and for a file that
    cannot be opened a second time only when it is empty.
-/
import Adler.Deluge.Boot
import Mathlib.Algebra.Order.Floor.Div
import Mathlib.GroupTheory.GroupAction.Ring

namespace Adler.Deluge.Tx

open Node

/-- A record of a page that is there, in the given version. -/
def Initialised (version : Nat) (p : Page) : Prop :=
  ∃ crc, p = ⟨allPackets, crc, 0, 0, pageComplete, version⟩

/-- The object has a record for each page of a file of `len` bytes, and all page numbers can be sent: the
    indexes, the count in a profile and the first missing page in a summary. -/
structure HoldsPages (len version : Nat) (s : Node) : Prop where
  entries : s.entries = len ⌈/⌉ sPage
  pageCount : s.pageCount = s.entries
  initialised : ∀ i, i < s.entries → Initialised version (s.pages i)
  index : ∀ i, i < s.entries → i < 2 ^ 8
  npages : (profileOf s).npages = s.entries
  highestAvailable : highestAvailablePage s < 2 ^ 8

/-- The lengths for which the arithmetic is right. -/
def CountsRight (e : InitEnv) (len : Nat) : Prop :=
  if e.reopened.isSome then len ≤ 255 * sPage else len = 0

instance (e : InitEnv) (len : Nat) : Decidable (CountsRight e len) :=
  inferInstanceAs (Decidable (if e.reopened.isSome then len ≤ 255 * sPage else len = 0))

variable {e : InitEnv} {f : File} {v : Nat} {s s' : Node}

/-- What `init_object` leaves when it returns 0. -/
theorem initObject_table (h : initObject e f v s = (0, s')) :
    s'.entries = s'.pageCount ∧ (∀ i, i < s'.entries → Initialised (v % 256) (s'.pages i)) ∧
      s'.size = if e.reopened.isSome then f.len % 65536 else 65535 := by
  obtain ⟨fd, block, l, size, pages, file, rfl, -, hsize, hpages, -⟩ := initObject_eq h
  refine ⟨rfl, ?_, hsize⟩
  intro i hi
  obtain ⟨crc, p, hp⟩ := hpages i hi
  exact ⟨crc, hp⟩

/-- The table of an object that was started. -/
theorem disseminate_table (h : delugeDisseminate start e f v s = (0, s')) :
    s'.entries = s'.pageCount ∧ (∀ i, i < s'.entries → Initialised (v % 256) (s'.pages i)) ∧
      s'.size = if e.reopened.isSome then f.len % 65536 else 65535 := by
  obtain ⟨t, hinit, rfl⟩ := delugeDisseminate_init h
  have htable := initObject_table hinit
  exact htable

/-- The count in 16-bit arithmetic is the number of pages exactly when the length is at most that of 255
    pages. -/
theorem count_eq_iff (len : Nat) : (len % 65536 + 255) % 65536 / 256 = len ⌈/⌉ 256 ↔ len ≤ 255 * 256 := by
  rw [Nat.ceilDiv_eq_add_pred_div]
  omega

theorem disseminate_pageCount_iff (h : delugeDisseminate start e f v s = (0, s')) :
    s'.pageCount = f.len ⌈/⌉ sPage ↔ CountsRight e f.len := by
  obtain ⟨-, -, hsize⟩ := disseminate_table h
  unfold CountsRight Node.pageCount
  rw [hsize]
  split
  · exact count_eq_iff f.len
  · -- the size is 65535 and wraps to no page at all
    show 0 = f.len ⌈/⌉ 256 ↔ f.len = 0
    rw [Nat.ceilDiv_eq_add_pred_div]
    omega

/-- **Page count arithmetic.** When `deluge_disseminate` returns 0, the object has the page records of its
    file exactly when the length is at most that of 255 pages and the file could be opened twice, or the
    file is empty. -/
theorem holdsPages_iff (h : delugeDisseminate start e f v s = (0, s')) :
    HoldsPages f.len (v % 256) s' ↔ CountsRight e f.len := by
  obtain ⟨hentries, hpages, -⟩ := disseminate_table h
  have hcount := disseminate_pageCount_iff h
  constructor
  · intro hholds
    exact hcount.mp (hholds.pageCount.trans hholds.entries)
  · intro hright
    have hle := pageCount_le s'
    have hhighest : highestAvailablePage s' ≤ s'.pageCount := Lib.firstFailing_le _ _
    refine ⟨hentries.trans (hcount.mpr hright), hentries.symm, hpages, ?_, ?_, ?_⟩
    · intro i hi
      omega
    · show s'.pageCount % 256 = s'.entries
      omega
    · omega

/-- A file of 600 bytes has three pages. -/
theorem holdsPages_three : HoldsPages 600 0 (boot 600 0) :=
  (holdsPages_iff (e := quietInit) (f := zeroFile 600) (v := 0) (s := Node.zero) rfl).mpr (by decide)

/-- A file of 65281 bytes has 256 pages; the object has no page record. -/
theorem page_count_wraps :
    ∃ s, delugeDisseminate start quietInit (zeroFile 65281) 0 Node.zero = (0, s) ∧ s.entries = 0 ∧
      65281 ⌈/⌉ sPage = 256 :=
  ⟨_, rfl, rfl, rfl⟩

end Adler.Deluge.Tx
