/-
  What `elfloader_load` stores in memory. `elfloader_arch_allocate_ram` and `elfloader_arch_allocate_rom`
  return `datamemory` and `textmemory` whatever size they are asked for, and the sections are put there
  one behind the other; `TEXT_IN_ROM` is 0.

  * `Sections.place`: the four sections that are stored, and the descriptor after that.
  * `loadSections_eq`, `elfloaderLoad_eq`: the load by its parts: the section headers, the relocations,
    the placing, the search for the processes.
  * `Store.Inside`: nothing is stored outside the two arrays.
-/
import Adler.Loader.Frame

namespace Adler.Loader

open Lib (Mem)

/-- `ELFLOADER_TEXTMEMORY_SIZE`. -/
@[simp] abbrev elfloaderTextmemorySize : Nat := 0x800

/-- `ELFLOADER_DATAMEMORY_SIZE`. -/
@[simp] abbrev elfloaderDatamemorySize : Nat := 0x400

/-- The arrays of `elfloader-msp430.c`. -/
inductive Region where
  | textmemory
  | datamemory

/-- The address of the array. -/
def Region.base (env : LoadEnv) : Region → Nat
  | .textmemory => env.textmemory
  | .datamemory => env.datamemory

def Region.size : Region → Nat
  | .textmemory => elfloaderTextmemorySize
  | .datamemory => elfloaderDatamemorySize

theorem Region.size_lt (r : Region) : r.size < 65536 := by
  cases r <;> decide

/-- What is stored from an address on, of a section that is to lie in the region. -/
structure Store where
  region : Region
  address : Nat
  bytes : List UInt8

/-- Every byte is stored in the region; addresses have 16 bits. -/
def Store.Inside (env : LoadEnv) (w : Store) : Prop :=
  ∀ j < w.bytes.length, ∃ k < w.region.size,
    (w.address + j) % 65536 = (w.region.base env + k) % 65536

variable {env : LoadEnv} {t : Sections} {fd fd' : Fd} {fuel : Nat}

/-- From a place in the region on. -/
theorem Store.inside_of_le {w : Store} {k : Nat}
    (haddress : w.address % 65536 = (w.region.base env + k) % 65536)
    (hsize : k + w.bytes.length ≤ w.region.size) : w.Inside env := by
  intro j hj
  exact ⟨k + j, by omega, by omega⟩

/-- A store that lies inside does not go on past the end. -/
theorem Store.Inside.le {w : Store} {k : Nat} (h : w.Inside env)
    (haddress : w.address % 65536 = (w.region.base env + k) % 65536) (hk : k ≤ w.region.size) :
    k + w.bytes.length ≤ w.region.size := by
  have hsize := w.region.size_lt
  by_contra hlt
  obtain ⟨i, hi, heq⟩ := h (w.region.size - k) (by omega)
  omega

namespace Fd

/-- What `cfs_read(fd, buf, len)` stores in the buffer. -/
def block (env : LoadEnv) (len : Nat) (fd : Fd) : List UInt8 :=
  match env.xfer fd.ops with
  | none => []
  | some n => Mem.read fd.file.data fd.pos (min (min len n) (fd.file.len - fd.pos))

/-- What `seek_read` stores in the buffer. -/
def seekBlock (env : LoadEnv) (offset len : Nat) (fd : Fd) : List UInt8 :=
  (fd.seek env (offset % 65536)).2.block env len

theorem read_eq_block (env : LoadEnv) (buf : Mem) (len : Nat) (fd : Fd) :
    (read env buf len fd).1 = Mem.copy buf 0 (block env len fd) := by
  unfold read block
  cases env.xfer fd.ops with
  | none => exact (Mem.copy_nil buf 0).symm
  | some n => rfl

theorem seekRead_eq_block (env : LoadEnv) (offset : Nat) (buf : Mem) (len : Nat) (fd : Fd) :
    (seekRead env offset buf len fd).1 = Mem.copy buf 0 (seekBlock env offset len fd) :=
  read_eq_block env buf len _

theorem length_block_le (env : LoadEnv) (len : Nat) (fd : Fd) : (block env len fd).length ≤ len := by
  unfold block
  split
  · exact Nat.zero_le len
  · rw [Mem.length_read]
    exact Nat.le_trans (Nat.min_le_left _ _) (Nat.min_le_left _ _)

theorem length_seekBlock_le (env : LoadEnv) (offset len : Nat) (fd : Fd) :
    (seekBlock env offset len fd).length ≤ len := length_block_le env len _

end Fd

/-! ## The parts of `elfloader_load` -/

/-- The relocations of text, rodata and data. -/
def Sections.relocateAll (env : LoadEnv) (t : Sections) (fuel : Nat) (fd : Fd) : Option (Nat × Fd) :=
  andThen (relocateSection env t fuel t.textrela t.text fd) fun fd =>
    andThen (relocateSection env t fuel t.rodatarela t.rodata fd) fun fd =>
      relocateSection env t fuel t.datarela t.data fd

/-- `elfloader_arch_write_rom` for text and rodata, `memset` for bss, `seek_read` for data: what is
    stored, and the descriptor after that. -/
def Sections.place (env : LoadEnv) (t : Sections) (fd : Fd) : List Store × Fd :=
  let at_ := t.addresses env
  let text := fd.seekRead env t.text.off (env.stack fd.ops 7) t.text.size
  let rodata := text.2.seekRead env t.rodata.off (env.stack text.2.ops 8) t.rodata.size
  let data := rodata.2.seekRead env t.data.off (env.stack rodata.2.ops 9) t.data.size
  ([⟨.textmemory, at_.text, fd.seekBlock env t.text.off t.text.size⟩,
    ⟨.textmemory, at_.rodata, text.2.seekBlock env t.rodata.off t.rodata.size⟩,
    ⟨.datamemory, at_.bss, List.replicate t.bsssize 0⟩,
    ⟨.datamemory, at_.data, rodata.2.seekBlock env t.data.off t.data.size⟩], data.2)

/-- The search for the processes. -/
def findStart (env : LoadEnv) (t : Sections) (fuel : Nat) (fd : Fd) : Option (Nat × Fd) :=
  (findLocalSymbol env t fuel (literal "autostart_processes") fd).bind fun r =>
    if r.1 ≠ 0 then some (elfloaderOk, r.2)
    else (findProgramProcesses env t fuel r.2).map fun r => (elfloaderNoStartpoint, r.2)

/-- Symbols, strings and text were found, so the load goes on after the section headers. -/
structure Sections.Complete (t : Sections) : Prop where
  symtab : t.symtab.size ≠ 0
  strtab : t.strtab.size ≠ 0
  text : t.text.size ≠ 0

instance (t : Sections) : Decidable t.Complete :=
  decidable_of_iff (t.symtab.size ≠ 0 ∧ t.strtab.size ≠ 0 ∧ t.text.size ≠ 0)
    ⟨fun h => ⟨h.1, h.2.1, h.2.2⟩, fun h => ⟨h.1, h.2, h.3⟩⟩

theorem andThen_assoc (x : Option (Nat × Fd)) (f g : Fd → Option (Nat × Fd)) :
    andThen (andThen x f) g = andThen x fun fd => andThen (f fd) g := by
  match x with
  | none => rfl
  | some r =>
    show (if r.1 = elfloaderOk then f r.2 else some r).bind _ = if r.1 = elfloaderOk then _ else some r
    split
    · rfl
    · rename_i hbad
      exact if_neg hbad

theorem loadSections_eq (h : t.Complete) : loadSections env t fuel fd =
    andThen (t.relocateAll env fuel fd) fun fd => findStart env t fuel (t.place env fd).2 := by
  rw [loadSections, if_neg h.symtab, if_neg h.strtab, if_neg h.text, Sections.relocateAll,
    andThen_assoc]
  simp only [andThen_assoc]
  rfl

theorem loadSections_incomplete (env : LoadEnv) (fuel : Nat) (fd : Fd) (h : ¬ t.Complete) :
    ∃ ret, elfloaderNoSymtab ≤ ret ∧ ret ≤ elfloaderNoText ∧
      loadSections env t fuel fd = some (ret, fd) := by
  unfold loadSections
  split_ifs with hsym hstr htext
  · exact ⟨_, by decide, by decide, rfl⟩
  · exact ⟨_, by decide, by decide, rfl⟩
  · exact ⟨_, by decide, by decide, rfl⟩
  · exact absurd ⟨hsym, hstr, htext⟩ h

/-- The section headers as `elfloader_load` reads them, unless the magic number is wrong. -/
def sectionTable (env : LoadEnv) (fd : Fd) : Option (Sections × Fd) :=
  let ehdr := fd.seekRead env 0 (env.stack fd.ops 10) sizeofEhdr
  if Mem.read ehdr.1 0 7 ≠ elfMagicHeader then none
  else
    let shoff := eShoff ehdr.1
    let shdrsize := eShentsize ehdr.1
    let shdr := ehdr.2.seekRead env shoff (env.stack fd.ops 11) sizeofShdr
    let strtable := shdr.2.seekRead env (shoff + shdrsize * eShstrndx ehdr.1) (env.stack fd.ops 12)
      sizeofShdr
    some (scanSections env (shOffset strtable.1 % 65536) shdrsize (eShnum ehdr.1) 0
      (shoff % 65536) shdr.1 (env.stack fd.ops 13) Sections.start strtable.2)

theorem elfloaderLoad_eq (env : LoadEnv) (fuel : Nat) (fd : Fd) : elfloaderLoad env fuel fd =
    match sectionTable env fd with
    | none => some (elfloaderBadElfHeader, (fd.seekRead env 0 (env.stack fd.ops 10) sizeofEhdr).2)
    | some r => loadSections env r.1 fuel r.2 := by
  unfold elfloaderLoad sectionTable
  dsimp only
  split <;> rfl

/-- What `elfloader_load` stores in memory once the section headers are read. -/
def loadStores (env : LoadEnv) (t : Sections) (fuel : Nat) (fd : Fd) : List Store :=
  if t.Complete then
    match t.relocateAll env fuel fd with
    | some (ret, fd) => if ret = elfloaderOk then (t.place env fd).1 else []
    | none => []
  else []

/-- What `codeload` stores in memory. -/
def codeloadStores (env : LoadEnv) (fuel : Nat) (f : Deluge.File) : List Store :=
  if env.opened then
    match sectionTable env ⟨f, 0, 0, []⟩ with
    | none => []
    | some r => loadStores env r.1 fuel r.2
  else []

theorem mem_loadStores {w : Store} (h : w ∈ loadStores env t fuel fd) :
    ∃ fd', t.relocateAll env fuel fd = some (elfloaderOk, fd') ∧ w ∈ (t.place env fd').1 := by
  unfold loadStores at h
  split at h
  · split at h
    · rename_i ret fd' hrel
      split at h
      · rename_i hok
        exact ⟨fd', hok ▸ hrel, h⟩
      · cases h
    · cases h
  · cases h

theorem loadStores_eq (hc : t.Complete) (h : t.relocateAll env fuel fd = some (elfloaderOk, fd')) :
    loadStores env t fuel fd = (t.place env fd').1 := by
  rw [loadStores, if_pos hc, h]
  exact if_pos rfl

/-! ## The values that are returned -/

theorem relocateEntries_le {sectionaddr stop : Nat} {r : Nat × Fd} :
    ∀ (fuel a : Nat) (rela s name : Mem) (fd : Fd),
      relocateEntries env t sectionaddr stop fuel a rela s name fd = some r →
        r.1 ≤ elfloaderSegmentNotFound := by
  intro fuel
  induction fuel with
  | zero =>
    intro a rela s name fd h
    cases h
  | succ fuel ih =>
    intro a rela s name fd h
    unfold relocateEntries at h
    split at h
    · dsimp only at h
      split at h
      · cases h
      · rename_i hres
        cases h
        exact (resolve_error hres).2
      · exact ih _ _ _ _ _ h
    · cases h
      exact Nat.zero_le _

theorem relocateSection_le {rela sec : Extent} {r : Nat × Fd}
    (h : relocateSection env t fuel rela sec fd = some r) : r.1 ≤ elfloaderSegmentNotFound := by
  unfold relocateSection at h
  split at h
  · exact relocateEntries_le _ _ _ _ _ _ h
  · cases h
    exact Nat.zero_le _

theorem andThen_le {x : Option (Nat × Fd)} {next : Fd → Option (Nat × Fd)} {r : Nat × Fd} {n : Nat}
    (h : andThen x next = some r) (hx : ∀ r', x = some r' → r'.1 ≤ n)
    (hnext : ∀ fd', next fd' = some r → r.1 ≤ n) : r.1 ≤ n := by
  obtain ⟨r', hx', ⟨_, rfl⟩ | ⟨_, hr⟩⟩ := andThen_eq_some h
  · exact hx r hx'
  · exact hnext r'.2 hr

theorem relocateAll_le {r : Nat × Fd} (h : t.relocateAll env fuel fd = some r) :
    r.1 ≤ elfloaderSegmentNotFound :=
  andThen_le h (fun _ => relocateSection_le) fun _ h =>
    andThen_le h (fun _ => relocateSection_le) fun _ => relocateSection_le

theorem findStart_le {r : Nat × Fd} (h : findStart env t fuel fd = some r) :
    r.1 ≤ elfloaderNoStartpoint := by
  obtain ⟨l, _, h⟩ := Option.bind_eq_some_iff.mp h
  split at h
  · cases h
    exact Nat.zero_le _
  · obtain ⟨q, _, heq⟩ := Option.map_eq_some_iff.mp h
    cases heq
    exact Nat.le_refl _

/-- A load that ends returns one of the values of `elfloader.h`. -/
theorem loadSections_le {r : Nat × Fd} (h : loadSections env t fuel fd = some r) :
    r.1 ≤ elfloaderNoStartpoint := by
  by_cases hc : t.Complete
  · rw [loadSections_eq hc] at h
    refine andThen_le h (fun r' hr' => ?_) fun _ => findStart_le
    exact Nat.le_trans (relocateAll_le hr') (by decide)
  · obtain ⟨ret, _, hret, heq⟩ := loadSections_incomplete env fuel fd hc
    rw [heq] at h
    cases h
    exact Nat.le_trans hret (by decide)

end Adler.Loader
