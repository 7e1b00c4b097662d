/-
  Which images can be loaded safely. Every size and offset in the section headers is believed: a table
  whose end is too close to the end of the 16-bit offsets is walked over and over, and a section that is
  larger than its memory is stored over what lies behind.

  * `Sections.Fits`: the tables have an end that is reached, and the sections their room.
  * `loadsSafely`: with such headers the load ends, whatever else is in the file and however the file
    operations come out, and stores nothing outside `textmemory` and `datamemory`.
  * `codeload_safe`: the same of `codeload`.
-/
import Adler.Lib.Cycle
import Adler.Loader.Place

namespace Adler.Loader

open Lib (Mem Reaches exists_pred_of_lt reaches_iff)

/-! ## The condition on the section headers -/

/-- The entries of a relocation section. -/
def Sections.relSize (t : Sections) : Nat := if t.usingRelas then sizeofRela else sizeofRel

/-- The walk over a table in 16-bit offsets comes to its end. -/
def Extent.Walkable (step : Nat) (e : Extent) : Prop :=
  Reaches 65536 step ((e.off + e.size) % 65536) e.off

instance (step : Nat) (e : Extent) : Decidable (e.Walkable step) :=
  decidable_of_iff _ (reaches_iff (by decide)).symm

/-- The walks end and the sections have room. -/
structure Sections.Fits (t : Sections) : Prop where
  symtab : t.symtab.Walkable sizeofSym
  textrela : t.textrela.Walkable t.relSize
  rodatarela : t.rodatarela.Walkable t.relSize
  datarela : t.datarela.Walkable t.relSize
  text : t.text.size + t.rodata.size ≤ elfloaderTextmemorySize
  data : t.bsssize + t.data.size ≤ elfloaderDatamemorySize

instance (t : Sections) : Decidable t.Fits :=
  decidable_of_iff (t.symtab.Walkable sizeofSym ∧ t.textrela.Walkable t.relSize ∧
      t.rodatarela.Walkable t.relSize ∧ t.datarela.Walkable t.relSize ∧
      t.text.size + t.rodata.size ≤ elfloaderTextmemorySize ∧
      t.bsssize + t.data.size ≤ elfloaderDatamemorySize)
    ⟨fun h => ⟨h.1, h.2.1, h.2.2.1, h.2.2.2.1, h.2.2.2.2.1, h.2.2.2.2.2⟩,
      fun h => ⟨h.symtab, h.textrela, h.rodatarela, h.datarela, h.text, h.data⟩⟩

/-- The section headers of an image that is refused at once, or fits. -/
def Sections.Sound (t : Sections) : Prop := t.Complete → t.Fits

instance (t : Sections) : Decidable t.Sound := inferInstanceAs (Decidable (_ → _))

/-- `unsigned short`. -/
structure Extent.Short (e : Extent) : Prop where
  off : e.off < 65536
  size : e.size < 65536

/-- The variables that are `unsigned short`. -/
structure Sections.Short (t : Sections) : Prop where
  symtab : t.symtab.Short
  text : t.text.Short
  textrela : t.textrela.Short
  rodata : t.rodata.Short
  rodatarela : t.rodatarela.Short
  data : t.data.Short
  datarela : t.datarela.Short

theorem shExtent_short (shdr : Mem) : (shExtent shdr).Short :=
  ⟨Nat.mod_lt _ (by decide), Nat.mod_lt _ (by decide)⟩

theorem Sections.Short.ite {p : Prop} [Decidable p] {t t' : Sections} (h : t.Short) (h' : t'.Short) :
    (if p then t else t').Short := by
  split
  · exact h
  · exact h'

theorem Sections.Short.note {t : Sections} (h : t.Short) (i : Nat) (shdr name : Mem) :
    (t.note i shdr name).Short := by
  have hext := shExtent_short shdr
  obtain ⟨hsymtab, htext, htextrela, hrodata, hrodatarela, hdata, hdatarela⟩ := h
  unfold Sections.note
  repeat' apply Sections.Short.ite
  all_goals constructor <;> assumption

theorem scanSections_short (env : LoadEnv) (strs shdrsize n : Nat) :
    ∀ (i shdrptr : Nat) (shdr name : Mem) (t : Sections) (fd : Fd), t.Short →
      (scanSections env strs shdrsize n i shdrptr shdr name t fd).1.Short := by
  induction n with
  | zero => exact fun _ _ _ _ _ _ h => h
  | succ n ih => exact fun i _ _ _ _ _ h => ih _ _ _ _ _ _ (h.note i _ _)

/-- `elfloader_load` reads no others. -/
theorem sectionTable_short {env : LoadEnv} {fd : Fd} {r : Sections × Fd}
    (h : sectionTable env fd = some r) : r.1.Short := by
  have hzero : Extent.Short ⟨0, 0⟩ := ⟨by decide, by decide⟩
  unfold sectionTable at h
  dsimp only at h
  split at h
  · cases h
  · cases h
    exact scanSections_short _ _ _ _ _ _ _ _ _ _
      ⟨hzero, hzero, hzero, hzero, hzero, hzero, hzero⟩

/-! ## What is claimed of a load -/

/-- From the section headers on the load ends with one of the values of `elfloader.h` and stores nothing
    outside its memory. -/
def LoadsSafely (env : LoadEnv) (t : Sections) (fd : Fd) : Prop :=
  ∃ fuel r, loadSections env t fuel fd = some r ∧ r.1 ≤ elfloaderNoStartpoint ∧
    ∀ w ∈ loadStores env t fuel fd, w.Inside env

/-- `codeload` does. -/
def CodeloadSafe (env : LoadEnv) (f : Deluge.File) : Prop :=
  ∃ fuel r, codeload env fuel f = some r ∧ r.1 ≤ elfloaderNoStartpoint ∧
    ∀ w ∈ codeloadStores env fuel f, w.Inside env

variable {env : LoadEnv} {t : Sections} {fd fd' : Fd} {fuel : Nat} {f : Deluge.File}

/-! ## Headers that fit -/

/-- The walk over the symbol table ends within `k` symbols. -/
theorem searchSymtab_ends {found : Mem → Nat} {symbol : List UInt8} :
    ∀ (fuel k a : Nat) (s name : Mem) (fd : Fd), k < fuel →
      (t.symtab.off + t.symtab.size) % 65536 ≤ (a + k * sizeofSym) % 65536 →
      ∃ r, searchSymtab env t found symbol fuel a s name fd = some r := by
  intro fuel
  induction fuel with
  | zero =>
    intro k a s name fd hfuel
    exact absurd hfuel (Nat.not_lt_zero k)
  | succ fuel ih =>
    intro k a s name fd hfuel hend
    unfold searchSymtab
    split
    · rename_i hlt
      obtain ⟨k, rfl, hnext⟩ := exists_pred_of_lt hlt hend
      have hfuel := Nat.lt_of_succ_lt_succ hfuel
      dsimp only
      split
      · split
        · exact ⟨_, rfl⟩
        · exact ih k _ _ _ _ hfuel hnext
      · exact ih k _ _ _ _ hfuel hnext
    · exact ⟨_, rfl⟩

theorem findLocalSymbol_ends (env : LoadEnv) (symbol : List UInt8) (fd : Fd) {j : Nat}
    (hfuel : j < fuel)
    (hend : (t.symtab.off + t.symtab.size) % 65536 ≤ (t.symtab.off + j * sizeofSym) % 65536) :
    ∃ r, findLocalSymbol env t fuel symbol fd = some r :=
  searchSymtab_ends fuel j _ _ _ _ hfuel hend

theorem findProgramProcesses_ends (env : LoadEnv) (fd : Fd) {j : Nat} (hfuel : j < fuel)
    (hend : (t.symtab.off + t.symtab.size) % 65536 ≤ (t.symtab.off + j * sizeofSym) % 65536) :
    ∃ r, findProgramProcesses env t fuel fd = some r :=
  searchSymtab_ends fuel j _ _ _ _ hfuel hend

theorem resolve_ends (env : LoadEnv) (s name : Mem) (fd : Fd) {j : Nat} (hfuel : j < fuel)
    (hend : (t.symtab.off + t.symtab.size) % 65536 ≤ (t.symtab.off + j * sizeofSym) % 65536) :
    ∃ r, resolve env t fuel s name fd = some r := by
  unfold resolve
  split
  · dsimp only
    split
    · exact ⟨_, rfl⟩
    · obtain ⟨l, hl⟩ := findLocalSymbol_ends env _ _ hfuel hend
      exact ⟨_, Option.map_eq_some_iff.mpr ⟨l, hl, rfl⟩⟩
  · split <;> exact ⟨_, rfl⟩

/-- The walk over a relocation section ends within `k` entries, each of which may take a walk over the
    symbol table. -/
theorem relocateEntries_ends {sectionaddr stop j : Nat}
    (hsym : (t.symtab.off + t.symtab.size) % 65536 ≤ (t.symtab.off + j * sizeofSym) % 65536) :
    ∀ (fuel k a : Nat) (rela s name : Mem) (fd : Fd), j + k < fuel →
      stop ≤ (a + k * t.relSize) % 65536 →
      ∃ r, relocateEntries env t sectionaddr stop fuel a rela s name fd = some r := by
  intro fuel
  induction fuel with
  | zero =>
    intro k a rela s name fd hfuel
    exact absurd hfuel (Nat.not_lt_zero _)
  | succ fuel ih =>
    intro k a rela s name fd hfuel hend
    unfold relocateEntries
    split
    · rename_i hlt
      obtain ⟨k, rfl, hnext⟩ := exists_pred_of_lt hlt hend
      have hfuel : j + k < fuel := Nat.lt_of_succ_lt_succ hfuel
      dsimp only
      split
      · rename_i hres
        obtain ⟨r, hr⟩ := resolve_ends env _ _ _ (Nat.lt_of_le_of_lt (Nat.le_add_right j k) hfuel) hsym
        exact nomatch hres.symm.trans hr
      · exact ⟨_, rfl⟩
      · exact ih k _ _ _ _ _ hfuel hnext
    · exact ⟨_, rfl⟩

theorem relocateSection_ends {rela sec : Extent} {j k : Nat} (hfuel : j + k < fuel)
    (hsym : (t.symtab.off + t.symtab.size) % 65536 ≤ (t.symtab.off + j * sizeofSym) % 65536)
    (hend : (rela.off + rela.size) % 65536 ≤ (rela.off + k * t.relSize) % 65536) :
    ∃ r, relocateSection env t fuel rela sec fd = some r := by
  unfold relocateSection
  split
  · exact relocateEntries_ends hsym fuel k _ _ _ _ _ hfuel hend
  · exact ⟨_, rfl⟩

theorem andThen_ends {x : Option (Nat × Fd)} {next : Fd → Option (Nat × Fd)}
    (hx : ∃ r, x = some r) (hnext : ∀ fd, ∃ r, next fd = some r) : ∃ r, andThen x next = some r := by
  obtain ⟨r, rfl⟩ := hx
  show ∃ r', (if r.1 = elfloaderOk then next r.2 else some r) = some r'
  split
  · exact hnext r.2
  · exact ⟨r, rfl⟩

theorem findStart_ends {j : Nat} (hfuel : j < fuel)
    (hend : (t.symtab.off + t.symtab.size) % 65536 ≤ (t.symtab.off + j * sizeofSym) % 65536) :
    ∃ r, findStart env t fuel fd = some r := by
  obtain ⟨l, hl⟩ := findLocalSymbol_ends env (literal "autostart_processes") fd hfuel hend
  rw [findStart, hl]
  show ∃ r, (if l.1 ≠ 0 then some (elfloaderOk, l.2) else _) = some r
  split
  · exact ⟨_, rfl⟩
  · obtain ⟨q, hq⟩ := findProgramProcesses_ends env l.2 hfuel hend
    exact ⟨_, Option.map_eq_some_iff.mpr ⟨q, hq, rfl⟩⟩

/-- The sections that are placed lie inside when they fit. -/
theorem place_inside (h : t.Fits) (env : LoadEnv) (fd : Fd) :
    ∀ w ∈ (t.place env fd).1, w.Inside env := by
  have htext := h.text
  have hdata := h.data
  intro w hw
  simp only [Sections.place, Sections.addresses, List.mem_cons, List.not_mem_nil, or_false] at hw
  rcases hw with rfl | rfl | rfl | rfl
  · have hlen := Fd.length_seekBlock_le env t.text.off t.text.size fd
    refine Store.inside_of_le (k := 0) rfl ?_
    show 0 + (fd.seekBlock env t.text.off t.text.size).length ≤ elfloaderTextmemorySize
    omega
  · refine Store.inside_of_le (k := t.text.size) (Nat.mod_mod _ _) ?_
    exact Nat.le_trans (Nat.add_le_add_left (Fd.length_seekBlock_le _ _ _ _) _) htext
  · refine Store.inside_of_le (k := 0) rfl ?_
    show 0 + (List.replicate t.bsssize (0 : UInt8)).length ≤ elfloaderDatamemorySize
    rw [List.length_replicate]
    omega
  · refine Store.inside_of_le (k := t.bsssize) (Nat.mod_mod _ _) ?_
    exact Nat.le_trans (Nat.add_le_add_left (Fd.length_seekBlock_le _ _ _ _) _) hdata

theorem loadsSafely (h : t.Sound) (env : LoadEnv) (fd : Fd) : LoadsSafely env t fd := by
  by_cases hc : t.Complete
  · have hfits := h hc
    obtain ⟨j, hsym⟩ := hfits.symtab
    obtain ⟨k, htext⟩ := hfits.textrela
    obtain ⟨k', hrodata⟩ := hfits.rodatarela
    obtain ⟨k'', hdata⟩ := hfits.datarela
    have hends : ∃ r, loadSections env t (j + k + k' + k'' + 1) fd = some r := by
      rw [loadSections_eq hc]
      refine andThen_ends ?_ fun _ => findStart_ends (by omega) hsym
      refine andThen_ends (relocateSection_ends (by omega) hsym htext) fun _ => ?_
      refine andThen_ends (relocateSection_ends (by omega) hsym hrodata) fun _ => ?_
      exact relocateSection_ends (by omega) hsym hdata
    obtain ⟨r, hr⟩ := hends
    refine ⟨_, r, hr, loadSections_le hr, ?_⟩
    intro w hw
    obtain ⟨fd', _, hw⟩ := mem_loadStores hw
    exact place_inside hfits env fd' w hw
  · obtain ⟨ret, _, _, hr⟩ := loadSections_incomplete env 0 fd hc
    refine ⟨0, (ret, fd), hr, loadSections_le hr, ?_⟩
    intro w hw
    rw [loadStores, if_neg hc] at hw
    cases hw

theorem codeload_safe (h : ∀ r, sectionTable env ⟨f, 0, 0, []⟩ = some r → r.1.Sound) :
    CodeloadSafe env f := by
  unfold CodeloadSafe codeload codeloadStores
  by_cases hopen : env.opened = true
  · simp only [if_pos hopen, elfloaderLoad_eq]
    cases htable : sectionTable env ⟨f, 0, 0, []⟩ with
    | none => exact ⟨0, _, rfl, (by decide : elfloaderBadElfHeader ≤ elfloaderNoStartpoint), nofun⟩
    | some r => exact loadsSafely (h r htable) env r.2
  · simp only [if_neg hopen]
    exact ⟨0, _, rfl, (by decide : 1 ≤ elfloaderNoStartpoint), nofun⟩

end Adler.Loader
