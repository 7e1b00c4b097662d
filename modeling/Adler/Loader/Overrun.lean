/-
  What happens when the section headers are not sound. A file of ones takes the walk over a table through
  every entry up to the end of the table, if there is one, and fills every section.

  * `fits_of_loadsSafely`: if such a file is loaded safely, the headers fit.
  * `load_safe_iff`: `codeload` is safe with sound headers, and with no others whatever stands behind them.
  * `bss_overrun`: an image with one header that is too large.
-/
import Adler.Loader.Safe
import Adler.Loader.Served

namespace Adler.Loader

open Lib (Mem Reaches reaches_of_le reaches_of_next)
open Deluge (File sPage)

variable {env : LoadEnv} {t : Sections} {fd fd' : Fd} {fuel : Nat} {f : File}

/-! ## A file of ones -/

/-- A buffer, or a file, of ones. -/
def ones : Mem := fun _ => 1

/-- Every file operation succeeds, every name is a symbol of the firmware's, and the stack holds ones. -/
structure Obliging (env : LoadEnv) : Prop where
  seek : ∀ i, env.seek i = true
  xfer : ∀ i, env.xfer i = some 65536
  stack : env.stack = fun _ _ => ones
  lookup : ∀ name, env.symtabLookup name ≠ 0

/-- The file is long and holds ones wherever the loader reads. A relocation entry of ones has its place
    behind that. -/
structure Ones (fd : Fd) : Prop where
  data : ∀ p < 16777216, fd.file.data p = 1
  len : 16777216 ≤ fd.file.len

/-- Ones copied into a buffer of ones. -/
theorem copy_ones (offset n : Nat) : Mem.copy ones offset (List.replicate n 1) = ones := by
  funext p
  simp only [Mem.copy, ones, List.getD_eq_getElem?_getD, List.length_replicate]
  split
  · rename_i hp
    rw [List.getElem?_replicate_of_lt (by omega), Option.getD_some]
  · rfl

theorem read_ones (n : Nat) : Mem.read ones 0 n = List.replicate n 1 := by
  rw [List.eq_replicate_iff]
  exact ⟨Mem.length_read ones 0 n, fun b hb => by obtain ⟨_, _, rfl⟩ := List.mem_map.mp hb; rfl⟩

/-- A write leaves what is before its place. -/
theorem Fd.write_data_of_lt (env : LoadEnv) {sectionOffset rOffset p : Nat} {reached : Bool}
    {data : List UInt8} (hp : p < fd.pos) :
    (fd.write env sectionOffset rOffset reached data).file.data p = fd.file.data p := by
  unfold Fd.write
  split
  · rfl
  · exact Mem.copy_of_not_mem _ _ _ (.inl hp)

namespace Ones

/-- A read delivers what it is asked for. -/
theorem seekBlock (h : Ones fd) (henv : Obliging env) (offset : Nat) {len : Nat} (hlen : len ≤ 65536) :
    fd.seekBlock env offset len = List.replicate len 1 := by
  have hfile := h.len
  have hgot : min (min len 65536) (max fd.file.len (offset % 65536) - offset % 65536) = len := by omega
  have hread : fd.seekBlock env offset len = Mem.read fd.file.data (offset % 65536)
      (min (min len 65536) (max fd.file.len (offset % 65536) - offset % 65536)) := by
    simp only [Fd.seekBlock, Fd.block, Fd.seek, henv.seek, henv.xfer, if_true]
    rfl
  rw [hread, hgot, List.eq_replicate_iff]
  refine ⟨Mem.length_read _ _ _, ?_⟩
  intro b hb
  obtain ⟨i, hi, rfl⟩ := List.mem_map.mp hb
  have hlt := List.mem_range.mp hi
  exact h.data _ (by omega)

theorem reads (h : Ones fd) (hreads : fd.Reads fd') : Ones fd' := by
  refine ⟨?_, Nat.le_trans h.len hreads.len⟩
  rw [hreads.data]
  exact h.data

theorem afterRead (h : Ones fd) (env : LoadEnv) (offset : Nat) (buf : Mem) (len : Nat) :
    Ones (fd.seekRead env offset buf len).2 := h.reads (Fd.seekRead_reads env offset buf len fd)

theorem seekRead (h : Ones fd) (henv : Obliging env) (offset : Nat) {len : Nat} (hlen : len ≤ 65536) :
    ∃ fd', fd.seekRead env offset ones len = (ones, fd') ∧ Ones fd' := by
  refine ⟨_, Prod.ext ?_ rfl, h.afterRead env offset ones len⟩
  rw [Fd.seekRead_eq_block, h.seekBlock henv offset hlen, copy_ones]

/-- The place of an entry of ones is behind the part that is read. -/
theorem relocate (h : Ones fd) (henv : Obliging env) {sectionOffset : Nat} (hshort : sectionOffset < 65536)
    (addr : Nat) : Ones (elfloaderArchRelocate env sectionOffset ones addr fd) := by
  have hplace : 16777216 ≤ (sectionOffset + rOffset ones) % 4294967296 := by
    show 16777216 ≤ (sectionOffset + 16843009) % 4294967296
    omega
  refine ⟨?_, Nat.le_trans h.len (elfloaderArchRelocate_extends env _ _ addr fd).len⟩
  intro p hp
  unfold elfloaderArchRelocate
  dsimp only
  generalize (sectionOffset + rOffset ones) % 4294967296 = place at hplace
  have hpos : (fd.seek env place).2.pos = place := by rw [Fd.seek, if_pos (henv.seek _)]
  have hlt : p < (fd.seek env place).2.pos := by
    rw [hpos]
    exact Nat.lt_of_lt_of_le hp hplace
  rw [Fd.write_data_of_lt env hlt, (Fd.seek_reads env place fd).data]
  exact h.data p hp

/-- The name of the symbol is one of the firmware's. -/
theorem resolve (h : Ones fd) (henv : Obliging env) (t : Sections) (fuel : Nat) :
    ∃ addr fd', Loader.resolve env t fuel ones ones fd = some (.ok addr, ones, fd') ∧ Ones fd' := by
  obtain ⟨fd', hname, hones⟩ := h.seekRead henv (t.strtab.off + stName ones)
    (show 30 ≤ 65536 by decide)
  refine ⟨env.symtabLookup (cString 30 ones), fd', ?_, hones⟩
  unfold Loader.resolve
  rw [if_pos (by decide), hname]
  dsimp only
  rw [if_pos (henv.lookup _)]

theorem fetchAddend (h : Ones fd) (henv : Obliging env) (t : Sections) (sectionaddr : Nat) :
    ∃ fd', Loader.fetchAddend env t sectionaddr ones fd = (ones, fd') ∧ Ones fd' := by
  unfold Loader.fetchAddend
  split
  · exact ⟨fd, rfl, h⟩
  · obtain ⟨fd', hread, hones⟩ := h.seekRead henv (sectionaddr + rOffset ones)
      (show 4 ≤ 65536 by decide)
    refine ⟨fd', ?_, hones⟩
    have hfetched : fd.seekRead env (sectionaddr + rOffset ones) (fun i => ones (8 + i)) 4 =
        (ones, fd') := hread
    rw [hfetched]
    dsimp only
    rw [read_ones, copy_ones]

/-- A walk over relocation entries of ones goes on to the end. -/
theorem relocateEntries (henv : Obliging env) {sectionaddr stop : Nat} (hshort : sectionaddr < 65536)
    {r : Nat × Fd} : ∀ (fuel a : Nat) (fd : Fd), Ones fd → a < 65536 →
      Loader.relocateEntries env t sectionaddr stop fuel a ones ones ones fd = some r →
      r.1 = elfloaderOk ∧ Ones r.2 ∧ Reaches 65536 t.relSize stop a := by
  intro fuel
  induction fuel with
  | zero =>
    intro a fd _ _ h
    cases h
  | succ fuel ih =>
    intro a fd hfd ha h
    unfold Loader.relocateEntries at h
    split at h
    · have hsize : t.relSize ≤ 65536 := by
        unfold Sections.relSize
        split <;> decide
      obtain ⟨fd₁, hentry, hfd₁⟩ := hfd.seekRead henv a hsize
      obtain ⟨fd₂, hsym, hfd₂⟩ := hfd₁.seekRead henv
        (t.symtab.off + sizeofSym * elf32RSym (rInfo ones)) (show sizeofSym ≤ 65536 by decide)
      obtain ⟨addr, fd₃, hres, hfd₃⟩ := hfd₂.resolve henv t fuel
      obtain ⟨fd₄, haddend, hfd₄⟩ := hfd₃.fetchAddend henv t sectionaddr
      unfold Sections.relSize at hentry
      simp only [hentry, hsym, hres, haddend] at h
      obtain ⟨hok, hones, hreach⟩ :=
        ih _ _ (hfd₄.relocate henv hshort addr) (Nat.mod_lt _ (by decide)) h
      exact ⟨hok, hones, reaches_of_next hreach⟩
    · rename_i hle
      cases h
      exact ⟨rfl, hfd, reaches_of_le (Nat.le_of_not_lt hle) ha⟩

theorem relocateSection (h : Ones fd) (henv : Obliging env) {rela sec : Extent} (hrela : rela.Short)
    (hsec : sec.Short) {r : Nat × Fd} (hr : Loader.relocateSection env t fuel rela sec fd = some r) :
    r.1 = elfloaderOk ∧ Ones r.2 ∧ rela.Walkable t.relSize := by
  unfold Loader.relocateSection at hr
  simp only [henv.stack] at hr
  split at hr
  · exact relocateEntries henv hsec.off fuel rela.off fd h hrela.off hr
  · rename_i hempty
    cases hr
    have hzero : rela.size = 0 := Nat.eq_zero_of_not_pos hempty
    refine ⟨rfl, h, reaches_of_le ?_ hrela.off⟩
    rw [hzero]
    exact Nat.mod_le rela.off 65536

/-- All relocations are made. -/
theorem relocateAll (h : Ones fd) (henv : Obliging env) (ht : t.Short) {r : Nat × Fd}
    (hr : t.relocateAll env fuel fd = some r) :
    r.1 = elfloaderOk ∧ Ones r.2 ∧ t.textrela.Walkable t.relSize ∧
      t.rodatarela.Walkable t.relSize ∧ t.datarela.Walkable t.relSize := by
  obtain ⟨r₁, hr₁, hr⟩ := andThen_eq_some hr
  obtain ⟨hok₁, h₁, htext⟩ := h.relocateSection henv ht.textrela ht.text hr₁
  obtain ⟨r₂, hr₂, hr⟩ := andThen_eq_some (hr.resolve_left fun hbad => hbad.1 hok₁).2
  obtain ⟨hok₂, h₂, hrodata⟩ := h₁.relocateSection henv ht.rodatarela ht.rodata hr₂
  obtain ⟨hok₃, h₃, hdata⟩ := h₂.relocateSection henv ht.datarela ht.data
    (hr.resolve_left fun hbad => hbad.1 hok₂).2
  exact ⟨hok₃, h₃, htext, hrodata, hdata⟩

theorem place (h : Ones fd) (env : LoadEnv) (t : Sections) : Ones (t.place env fd).2 :=
  ((h.afterRead env _ _ _).afterRead env _ _ _).afterRead env _ _ _

/-- A search in a symbol table of ones for another name goes on to the end. -/
theorem searchSymtab (henv : Obliging env) {found : Mem → Nat} {symbol : List UInt8}
    (hname : cString 30 ones ≠ symbol) {r : Nat × Fd} : ∀ (fuel a : Nat) (fd : Fd), Ones fd →
      a < 65536 → Loader.searchSymtab env t found symbol fuel a ones ones fd = some r →
      Reaches 65536 sizeofSym ((t.symtab.off + t.symtab.size) % 65536) a := by
  intro fuel
  induction fuel with
  | zero =>
    intro a fd _ _ h
    cases h
  | succ fuel ih =>
    intro a fd hfd ha h
    unfold Loader.searchSymtab at h
    split at h
    · obtain ⟨fd₁, hsym, hfd₁⟩ := hfd.seekRead henv a (show sizeofSym ≤ 65536 by decide)
      obtain ⟨fd₂, hread, hfd₂⟩ := hfd₁.seekRead henv (t.strtab.off + stName ones)
        (show 30 ≤ 65536 by decide)
      have hnamed : stName ones ≠ 0 := by decide
      simp only [hsym, hread, if_pos hnamed, if_neg hname] at h
      exact reaches_of_next (ih _ _ hfd₂ (Nat.mod_lt _ (by decide)) h)
    · rename_i hle
      exact reaches_of_le (Nat.le_of_not_lt hle) ha

theorem findStart (h : Ones fd) (henv : Obliging env) (ht : t.Short) {r : Nat × Fd}
    (hr : Loader.findStart env t fuel fd = some r) : t.symtab.Walkable sizeofSym := by
  obtain ⟨l, hl, -⟩ := Option.bind_eq_some_iff.mp hr
  unfold findLocalSymbol at hl
  simp only [henv.stack] at hl
  exact searchSymtab henv (by decide) fuel t.symtab.off fd h ht.symtab.off hl

end Ones

/-! ## What a safe load of it says about the headers -/

/-- The sections placed in memory are as large as the headers say. -/
theorem fits_of_place (h : Ones fd) (henv : Obliging env) (ht : t.Short)
    (hinside : ∀ w ∈ (t.place env fd).1, w.Inside env) :
    t.text.size + t.rodata.size ≤ elfloaderTextmemorySize ∧
      t.bsssize + t.data.size ≤ elfloaderDatamemorySize := by
  have hbytes : ∀ {fd : Fd} {e : Extent}, Ones fd → e.Short →
      (fd.seekBlock env e.off e.size).length = e.size := by
    intro fd e hfd he
    rw [hfd.seekBlock henv e.off (Nat.le_of_lt he.size), List.length_replicate]
  simp only [Sections.place, List.forall_mem_cons] at hinside
  obtain ⟨htext, hrodata, hbss, hdata, -⟩ := hinside
  have hrom := htext.le (k := 0) rfl (Nat.zero_le _)
  have hram := hbss.le (k := 0) rfl (Nat.zero_le _)
  rw [hbytes h ht.text, Nat.zero_add] at hrom
  rw [List.length_replicate, Nat.zero_add] at hram
  have hrom' := hrodata.le (k := t.text.size) (Nat.mod_mod _ 65536) hrom
  have hram' := hdata.le (k := t.bsssize) (Nat.mod_mod _ 65536) hram
  rw [hbytes (h.afterRead env _ _ _) ht.rodata] at hrom'
  rw [hbytes ((h.afterRead env _ _ _).afterRead env _ _ _) ht.data] at hram'
  exact ⟨hrom', hram'⟩

theorem fits_of_loadsSafely (hfd : Ones fd) (henv : Obliging env) (ht : t.Short) (hc : t.Complete)
    (h : LoadsSafely env t fd) : t.Fits := by
  obtain ⟨fuel, r, hr, -, hinside⟩ := h
  rw [loadSections_eq hc] at hr
  obtain ⟨r', hrel, hr⟩ := andThen_eq_some hr
  obtain ⟨hok, hones, htext, hrodata, hdata⟩ := hfd.relocateAll henv ht hrel
  have hstart := (hr.resolve_left fun hbad => hbad.1 hok).2
  have hall : t.relocateAll env fuel fd = some (elfloaderOk, r'.2) := by rw [hrel, ← hok]
  rw [loadStores_eq hc hall] at hinside
  obtain ⟨hrom, hram⟩ := fits_of_place hones henv ht hinside
  exact ⟨(hones.place env t).findStart henv ht hstart, htext, hrodata, hdata, hrom, hram⟩

/-- A load that finds the file of ones. -/
def onesLoad : LoadEnv := { quietLoad with stack := fun _ _ => ones, symtabLookup := fun _ => 1 }

theorem onesLoad_obliging : Obliging onesLoad :=
  ⟨fun _ => rfl, fun _ => rfl, rfl, fun _ => Nat.one_ne_zero⟩

/-- The file of ones, opened. -/
def onesFd : Fd := ⟨⟨ones, 16777216⟩, 0, 0, []⟩

theorem onesFd_ones : Ones onesFd := ⟨fun _ _ => rfl, Nat.le_refl _⟩

/-- **Which images are loaded safely.** With sound section headers `codeload` ends, returns one of its
    values and stores nothing outside `textmemory` and `datamemory`. And section headers that
    `elfloader_load` has read are sound exactly when the load goes on safely from there whatever is in
    the file and however the file operations come out. -/
theorem load_safe_iff (env : LoadEnv) (f : File) :
    ((∀ r, sectionTable env ⟨f, 0, 0, []⟩ = some r → r.1.Sound) → CodeloadSafe env f) ∧
      ∀ r, sectionTable env ⟨f, 0, 0, []⟩ = some r →
        ((∀ env' fd, LoadsSafely env' r.1 fd) ↔ r.1.Sound) := by
  refine ⟨codeload_safe, ?_⟩
  intro r hr
  constructor
  · intro h hc
    exact fits_of_loadsSafely onesFd_ones onesLoad_obliging (sectionTable_short hr) hc (h _ _)
  · exact loadsSafely

/-- The image with one relocation is loaded safely. -/
theorem load_safe_image : CodeloadSafe quietLoad ⟨fun i => image.getD i 0, sPage⟩ := by
  have hrun : (sectionTable quietLoad ⟨⟨fun i => image.getD i 0, sPage⟩, 0, 0, []⟩).all
      (fun r => decide r.1.Sound) = true := by decide +kernel
  apply (load_safe_iff _ _).1
  intro r hr
  rw [hr] at hrun
  exact of_decide_eq_true hrun

/-! ## A header that is too large -/

/-- An image of one page with two bytes of text at 24, the symbol `autostart_processes` at 196, the
    strings at 212, and 2000 bytes of bss. -/
def bssImage : List UInt8 :=
  elfMagicHeader ++ field 25 0 ++ field 4 52 ++ field 10 0 ++ field 2 40 ++ field 2 4 ++
    field 2 1 ++ sectionHeader 1 1 24 2 (field 16 0) ++ sectionHeader 0 3 212 38 (field 16 0) ++
    sectionHeader 0 2 196 16 (field 16 0) ++
    sectionHeader 7 8 0 2000 (field 4 12 ++ field 12 0) ++ 0 :: literal ".text" ++
    0 :: literal ".bss" ++ 0 :: literal "autostart_processes" ++ field 13 0

/-- Without entries nothing is relocated. -/
theorem relocateAll_empty (htext : t.textrela.size = 0) (hrodata : t.rodatarela.size = 0)
    (hdata : t.datarela.size = 0) : t.relocateAll env fuel fd = some (elfloaderOk, fd) := by
  simp only [Sections.relocateAll, relocateSection, htext, hrodata, hdata, Nat.lt_irrefl, if_false,
    andThen, Option.bind_some, if_true]

/-- Its bss is cleared 976 bytes past the end of `datamemory`. -/
theorem bss_overrun : ¬ CodeloadSafe quietLoad ⟨fun i => bssImage.getD i 0, sPage⟩ := by
  have hrun : (sectionTable quietLoad ⟨⟨fun i => bssImage.getD i 0, sPage⟩, 0, 0, []⟩).map
      (fun r => decide (r.1.Complete ∧ r.1.textrela.size = 0 ∧ r.1.rodatarela.size = 0 ∧
        r.1.datarela.size = 0 ∧ r.1.bsssize = 2000)) = some true := by decide +kernel
  obtain ⟨r, hr, hp⟩ := Option.map_eq_some_iff.mp hrun
  obtain ⟨hc, htext, hrodata, hdata, hbss⟩ := of_decide_eq_true hp
  rintro ⟨fuel, -, -, -, hinside⟩
  have hstores : codeloadStores quietLoad fuel ⟨fun i => bssImage.getD i 0, sPage⟩ =
      (r.1.place quietLoad r.2).1 := by
    have hopen : quietLoad.opened = true := rfl
    rw [codeloadStores, if_pos hopen, hr]
    exact loadStores_eq hc (relocateAll_empty htext hrodata hdata)
  rw [hstores] at hinside
  simp only [Sections.place, List.forall_mem_cons] at hinside
  obtain ⟨-, -, hstore, -, -⟩ := hinside
  have hle : 0 + (List.replicate r.1.bsssize (0 : UInt8)).length ≤ elfloaderDatamemorySize :=
    hstore.le (k := 0) rfl (Nat.zero_le _)
  rw [List.length_replicate, hbss] at hle
  exact absurd hle (by decide)

end Adler.Loader
