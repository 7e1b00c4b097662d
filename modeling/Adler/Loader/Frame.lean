/-
  What loading an image does to the file it is loaded from. The loader relocates in place, on the
  file that Deluge serves: each relocation entry has the two bytes at its place overwritten.

  * `elfloaderLoad_extends`: nothing else of the file changes, whatever the image and the return value.
  * `elfloaderLoad_early`: a load that ends before the relocations changes nothing.
-/
import Adler.Loader.Elf

namespace Adler.Loader

open Lib (Mem)
open Fd (Reads Extends)

variable {env : LoadEnv} {t : Sections} {fd fd' : Fd} {ret fuel : Nat}

theorem scanSections_reads (env : LoadEnv) (strs shdrsize n : Nat) :
    ∀ (i shdrptr : Nat) (shdr name : Mem) (t : Sections) (fd : Fd),
      fd.Reads (scanSections env strs shdrsize n i shdrptr shdr name t fd).2 := by
  induction n with
  | zero => exact fun _ _ _ _ _ fd => Reads.refl fd
  | succ n ih =>
    intro i shdrptr shdr name t fd
    refine Reads.trans ?_ (ih _ _ _ _ _ _)
    exact (Fd.seekRead_reads env _ _ _ fd).trans (Fd.seekRead_reads env _ _ _ _)

theorem searchSymtab_reads {found : Mem → Nat} {symbol : List UInt8} {r : Nat × Fd} :
    ∀ (fuel a : Nat) (s name : Mem) (fd : Fd),
      searchSymtab env t found symbol fuel a s name fd = some r → fd.Reads r.2 := by
  intro fuel
  induction fuel with
  | zero =>
    intro a s name fd h
    cases h
  | succ fuel ih =>
    intro a s name fd h
    unfold searchSymtab at h
    split at h
    · have hsym := Fd.seekRead_reads env a s sizeofSym fd
      dsimp only at h
      split at h
      · have hname := hsym.trans (Fd.seekRead_reads env
          (t.strtab.off + stName (fd.seekRead env a s sizeofSym).1) name 30 _)
        split at h
        · cases h
          exact hname
        · exact hname.trans (ih _ _ _ _ h)
      · exact hsym.trans (ih _ _ _ _ h)
    · cases h
      exact Reads.refl fd

theorem findLocalSymbol_reads {symbol : List UInt8} {r : Nat × Fd}
    (h : findLocalSymbol env t fuel symbol fd = some r) : fd.Reads r.2 :=
  searchSymtab_reads _ _ _ _ _ h

theorem findProgramProcesses_reads {r : Nat × Fd}
    (h : findProgramProcesses env t fuel fd = some r) : fd.Reads r.2 :=
  searchSymtab_reads _ _ _ _ _ h

theorem resolve_reads {s name name' : Mem} {addr : Except Nat Nat}
    (h : resolve env t fuel s name fd = some (addr, name', fd')) : fd.Reads fd' := by
  unfold resolve at h
  split at h
  · have hname := Fd.seekRead_reads env (t.strtab.off + stName s) name 30 fd
    dsimp only at h
    generalize fd.seekRead env (t.strtab.off + stName s) name 30 = r at h hname
    split at h
    · cases h
      exact hname
    · obtain ⟨l, hl, heq⟩ := Option.map_eq_some_iff.mp h
      have hlocal := hname.trans (findLocalSymbol_reads hl)
      split at heq
      · cases heq
        exact hlocal
      · split at heq
        · cases heq
          exact hlocal
        · cases heq
          exact hlocal
  · split at h
    · cases h
      exact Reads.refl fd
    · cases h
      exact Reads.refl fd

theorem fetchAddend_reads (env : LoadEnv) (t : Sections) (sectionaddr : Nat) (rela : Mem)
    (fd : Fd) : fd.Reads (fetchAddend env t sectionaddr rela fd).2 := by
  unfold fetchAddend
  split
  · exact Reads.refl fd
  · exact Fd.seekRead_reads env _ _ _ fd

/-- One relocation. -/
theorem elfloaderArchRelocate_extends (env : LoadEnv) (sectionOffset : Nat) (rela : Mem)
    (addr : Nat) (fd : Fd) :
    fd.Extends (elfloaderArchRelocate env sectionOffset rela addr fd) := by
  refine (Fd.seek_reads env _ fd).extends.trans (Fd.write_extends env (Nat.le_refl 2) ?_)
  unfold Fd.seek
  split
  · intro _
    rfl
  · intro h
    cases h

/-- The return values from `ELFLOADER_BAD_ELF_HEADER` to `ELFLOADER_NO_TEXT` come before any
    relocation. -/
def EarlyExit (ret : Nat) : Prop := elfloaderBadElfHeader ≤ ret ∧ ret ≤ elfloaderNoText

theorem not_early_ok : ¬ EarlyExit elfloaderOk := fun h => Nat.not_succ_le_zero 0 h.1

theorem not_early_of_le (h : elfloaderSymbolNotFound ≤ ret) : ¬ EarlyExit ret :=
  fun hearly => absurd (Nat.le_trans h hearly.2) (by decide)

theorem resolve_error {s name name' : Mem}
    (h : resolve env t fuel s name fd = some (.error ret, name', fd')) :
    elfloaderSymbolNotFound ≤ ret ∧ ret ≤ elfloaderSegmentNotFound := by
  unfold resolve at h
  split at h
  · dsimp only at h
    split at h
    · cases h
    · obtain ⟨l, _, heq⟩ := Option.map_eq_some_iff.mp h
      split at heq
      · cases heq
      · split at heq
        · cases heq
        · cases heq
          decide
  · split at h
    · cases h
    · cases h
      decide

/-- What the relocations and what comes after them do: they write to the places of the entries only,
    and return none of the early values. -/
structure Relocated (fd : Fd) (r : Nat × Fd) : Prop where
  writes : fd.Extends r.2
  late : ¬ EarlyExit r.1

theorem relocated_ok (fd : Fd) : Relocated fd (elfloaderOk, fd) :=
  ⟨(Reads.refl fd).extends, not_early_ok⟩

/-- The loop over the entries of a section, by induction on the fuel. -/
theorem relocateEntries_relocated {sectionaddr stop : Nat} {r : Nat × Fd} :
    ∀ (fuel a : Nat) (rela s name : Mem) (fd : Fd),
      relocateEntries env t sectionaddr stop fuel a rela s name fd = some r → Relocated fd r := by
  intro fuel
  induction fuel with
  | zero =>
    intro a rela s name fd h
    cases h
  | succ fuel ih =>
    intro a rela s name fd h
    unfold relocateEntries at h
    split at h
    · dsimp only at h
      have hentry := Fd.seekRead_reads env a rela
        (if t.usingRelas = true then sizeofRela else sizeofRel) fd
      generalize fd.seekRead env a rela (if t.usingRelas = true then sizeofRela else sizeofRel) = r₁
        at h hentry
      have hsym := hentry.trans (Fd.seekRead_reads env
        (t.symtab.off + sizeofSym * elf32RSym (rInfo r₁.1)) s sizeofSym r₁.2)
      split at h
      · cases h
      · rename_i hres
        cases h
        exact ⟨(hsym.trans (resolve_reads hres)).extends, not_early_of_le (resolve_error hres).1⟩
      · rename_i fd₂ hres
        have haddend := (hsym.trans (resolve_reads hres)).trans
          (fetchAddend_reads env t sectionaddr r₁.1 fd₂)
        obtain ⟨hrest, hlate⟩ := ih _ _ _ _ _ h
        refine ⟨haddend.extends.trans ?_, hlate⟩
        exact (elfloaderArchRelocate_extends env sectionaddr _ _ _).trans hrest
    · cases h
      exact relocated_ok fd

theorem relocateSection_relocated {rela sec : Extent} {r : Nat × Fd}
    (h : relocateSection env t fuel rela sec fd = some r) : Relocated fd r := by
  unfold relocateSection at h
  split at h
  · exact relocateEntries_relocated _ _ _ _ _ _ h
  · cases h
    exact relocated_ok fd

theorem startPoint_relocated {r : Nat × Fd} (h : startPoint env t fuel fd = some r) :
    Relocated fd r := by
  obtain ⟨l, hl, h⟩ := Option.bind_eq_some_iff.mp h
  have hlocal := findLocalSymbol_reads hl
  have hmem := ((Fd.seekRead_reads env t.text.off _ t.text.size fd).trans
    (Fd.seekRead_reads env t.rodata.off _ t.rodata.size _)).trans
      ((Fd.seekRead_reads env t.data.off _ t.data.size _).trans hlocal)
  split at h
  · cases h
    exact ⟨hmem.extends, not_early_ok⟩
  · obtain ⟨q, hq, heq⟩ := Option.map_eq_some_iff.mp h
    cases heq
    exact ⟨(hmem.trans (findProgramProcesses_reads hq)).extends,
      not_early_of_le (Nat.le_add_left 5 2)⟩

/-- A step that may end the load, followed by another. -/
theorem andThen_eq_some {x : Option (Nat × Fd)} {next : Fd → Option (Nat × Fd)} {r : Nat × Fd}
    (h : andThen x next = some r) :
    ∃ r', x = some r' ∧ (r'.1 ≠ elfloaderOk ∧ r = r' ∨ r'.1 = elfloaderOk ∧ next r'.2 = some r) := by
  obtain ⟨r', hx, h⟩ := Option.bind_eq_some_iff.mp h
  refine ⟨r', hx, ?_⟩
  split at h
  · rename_i hok
    exact .inr ⟨hok, h⟩
  · rename_i hbad
    exact .inl ⟨hbad, (Option.some.inj h).symm⟩

theorem andThen_relocated {x : Option (Nat × Fd)} {next : Fd → Option (Nat × Fd)} {r : Nat × Fd}
    (h : andThen x next = some r) (hx : ∀ r', x = some r' → Relocated fd r')
    (hnext : ∀ fd', next fd' = some r → Relocated fd' r) : Relocated fd r := by
  obtain ⟨r', hx', ⟨_, rfl⟩ | ⟨_, hr⟩⟩ := andThen_eq_some h
  · exact hx r hx'
  · have hrest := hnext r'.2 hr
    exact ⟨(hx r' hx').writes.trans hrest.writes, hrest.late⟩

/-- The load ends before the relocations, or goes through them. -/
theorem loadSections_eq_some {r : Nat × Fd} (h : loadSections env t fuel fd = some r) :
    r.2 = fd ∨ Relocated fd r := by
  unfold loadSections at h
  split_ifs at h with hsym hstr htext
  · cases h
    exact .inl rfl
  · cases h
    exact .inl rfl
  · cases h
    exact .inl rfl
  · right
    refine andThen_relocated h (fun _ => relocateSection_relocated) ?_
    intro fd₁ h
    refine andThen_relocated h (fun _ => relocateSection_relocated) ?_
    intro fd₂ h
    refine andThen_relocated h (fun _ => relocateSection_relocated) ?_
    intro fd₃ h
    exact startPoint_relocated h

/-- Up to the section headers the file is only read. -/
theorem elfloaderLoad_eq_some {r : Nat × Fd} (h : elfloaderLoad env fuel fd = some r) :
    ∃ fd₁, fd.Reads fd₁ ∧ (r.2 = fd₁ ∨ Relocated fd₁ r) := by
  unfold elfloaderLoad at h
  dsimp only at h
  have hehdr := Fd.seekRead_reads env 0 (env.stack fd.ops 10) sizeofEhdr fd
  split at h
  · cases h
    exact ⟨_, hehdr, .inl rfl⟩
  · refine ⟨_, ?_, loadSections_eq_some h⟩
    exact ((hehdr.trans (Fd.seekRead_reads env _ _ _ _)).trans
      (Fd.seekRead_reads env _ _ _ _)).trans (scanSections_reads env _ _ _ _ _ _ _ _ _)

theorem elfloaderLoad_extends {r : Nat × Fd} (h : elfloaderLoad env fuel fd = some r) :
    fd.Extends r.2 := by
  obtain ⟨fd₁, hreads, rfl | hrel⟩ := elfloaderLoad_eq_some h
  · exact hreads.extends
  · exact hreads.extends.trans hrel.writes

theorem elfloaderLoad_early {r : Nat × Fd} (h : elfloaderLoad env fuel fd = some r)
    (hearly : EarlyExit r.1) : fd.Reads r.2 := by
  obtain ⟨fd₁, hreads, rfl | hrel⟩ := elfloaderLoad_eq_some h
  · exact hreads
  · exact absurd hearly hrel.late

end Adler.Loader
