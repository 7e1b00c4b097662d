/-
  `core/loader/elfloader.c` with `elfloader-msp430.c`, and `codeload` of `OTA_RX/codeload.c`.

  * The loader sees the image through a descriptor (`Fd`); what it stores in RAM and ROM, the names it
    prints and the processes it starts are not kept.
  * `unsigned int`, `unsigned short` and pointers have 16 bits on this processor, `elf32_word` and
    `elf32_addr` 32; offsets are cut where the code stores or passes them.
  * The loops over the symbol table and over the relocation entries compare 16-bit offsets that can
    wrap, so they need not end; they run on `fuel`, and `none` means that it did not suffice.
  * A name that fills its 30 bytes without a NUL is taken to end there.
-/
import Adler.Loader.Cfs

namespace Adler.Loader

open Lib (Mem)
open Deluge (File)

/-! ## Structures of the file -/

/-- A 16-bit field. -/
def half (b : Mem) (i : Nat) : Nat := (b i).toNat + 256 * (b (i + 1)).toNat

/-- A 32-bit field. -/
def word (b : Mem) (i : Nat) : Nat := half b i + 65536 * half b (i + 2)

/-- `sizeof(struct elf32_ehdr)`. -/
@[simp] abbrev sizeofEhdr : Nat := 52

/-- `sizeof(struct elf32_shdr)`. -/
@[simp] abbrev sizeofShdr : Nat := 40

/-- `sizeof(struct elf32_sym)`. -/
@[simp] abbrev sizeofSym : Nat := 16

/-- `sizeof(struct elf32_rel)`. -/
@[simp] abbrev sizeofRel : Nat := 8

/-- `sizeof(struct elf32_rela)`. -/
@[simp] abbrev sizeofRela : Nat := 12

def eShoff (ehdr : Mem) : Nat := word ehdr 32

def eShentsize (ehdr : Mem) : Nat := half ehdr 46

def eShnum (ehdr : Mem) : Nat := half ehdr 48

def eShstrndx (ehdr : Mem) : Nat := half ehdr 50

def shName (shdr : Mem) : Nat := word shdr 0

def shType (shdr : Mem) : Nat := word shdr 4

def shOffset (shdr : Mem) : Nat := word shdr 16

def shSize (shdr : Mem) : Nat := word shdr 20

def stName (s : Mem) : Nat := word s 0

def stValue (s : Mem) : Nat := word s 4

def stShndx (s : Mem) : Nat := half s 14

def rOffset (rela : Mem) : Nat := word rela 0

def rInfo (rela : Mem) : Nat := word rela 4

def rAddend (rela : Mem) : Nat := word rela 8

/-- `ELF32_R_SYM`. -/
def elf32RSym (info : Nat) : Nat := info / 256

@[simp] abbrev shtSymtab : Nat := 2

@[simp] abbrev shtStrtab : Nat := 3

/-- The string in a buffer of `n` bytes. -/
def cString (n : Nat) (b : Mem) : List UInt8 := (Mem.read b 0 n).takeWhile (· ≠ 0)

/-- The bytes of a string literal. -/
def literal (s : String) : List UInt8 := s.toList.map fun c => UInt8.ofNat c.toNat

/-- `strncmp(name, literal, strlen(literal)) == 0`. -/
def startsWith (name : Mem) (s : String) : Bool := Mem.read name 0 s.length = literal s

/-- `elf_magic_header`. -/
def elfMagicHeader : List UInt8 := [0x7f, 0x45, 0x4c, 0x46, 0x01, 0x01, 0x01]

/-! ## Return values -/

@[simp] abbrev elfloaderOk : Nat := 0

@[simp] abbrev elfloaderBadElfHeader : Nat := 1

@[simp] abbrev elfloaderNoSymtab : Nat := 2

@[simp] abbrev elfloaderNoStrtab : Nat := 3

@[simp] abbrev elfloaderNoText : Nat := 4

@[simp] abbrev elfloaderSymbolNotFound : Nat := 5

@[simp] abbrev elfloaderSegmentNotFound : Nat := 6

@[simp] abbrev elfloaderNoStartpoint : Nat := 7

/-! ## The section headers -/

/-- The place and the size of a section. -/
structure Extent where
  off : Nat
  size : Nat

/-- The variables the loop over the section headers sets, the section numbers among them. -/
structure Sections where
  usingRelas : Bool
  text : Extent
  textrela : Extent
  data : Extent
  datarela : Extent
  rodata : Extent
  rodatarela : Extent
  symtab : Extent
  strtab : Extent
  bsssize : Nat
  bssNumber : Nat
  dataNumber : Nat
  rodataNumber : Nat
  textNumber : Nat

/-- Before the loop; `using_relas` is -1, which counts as true. -/
def Sections.start : Sections :=
  ⟨true, ⟨0, 0⟩, ⟨0, 0⟩, ⟨0, 0⟩, ⟨0, 0⟩, ⟨0, 0⟩, ⟨0, 0⟩, ⟨0, 0⟩, ⟨0, 0⟩, 0, 255, 255, 255, 255⟩

/-- `sh_offset` and `sh_size` as `unsigned short`. -/
def shExtent (shdr : Mem) : Extent := ⟨shOffset shdr % 65536, shSize shdr % 65536⟩

/-- The body of the loop, for section `i`. -/
def Sections.note (i : Nat) (shdr name : Mem) (t : Sections) : Sections :=
  if shType shdr = shtSymtab then { t with symtab := shExtent shdr }
  else if shType shdr = shtStrtab then { t with strtab := shExtent shdr }
  else if startsWith name ".text" then { t with text := shExtent shdr, textNumber := i % 256 }
  else if startsWith name ".rel.text" then
    { t with usingRelas := false, textrela := shExtent shdr }
  else if startsWith name ".rela.text" then
    { t with usingRelas := true, textrela := shExtent shdr }
  else if startsWith name ".data" then { t with data := shExtent shdr, dataNumber := i % 256 }
  else if startsWith name ".rodata" then
    { t with rodata := shExtent shdr, rodataNumber := i % 256 }
  else if startsWith name ".rel.rodata" then
    { t with usingRelas := false, rodatarela := shExtent shdr }
  else if startsWith name ".rela.rodata" then
    { t with usingRelas := true, rodatarela := shExtent shdr }
  else if startsWith name ".rel.data" then
    { t with usingRelas := false, datarela := shExtent shdr }
  else if startsWith name ".rela.data" then
    { t with usingRelas := true, datarela := shExtent shdr }
  else if startsWith name ".bss" then
    { t with bsssize := shSize shdr % 65536, bssNumber := i % 256 }
  else t

/-- The loop over the section headers from section `i` on, with `n` of them left. -/
def scanSections (env : LoadEnv) (strs shdrsize : Nat) :
    Nat → Nat → Nat → Mem → Mem → Sections → Fd → Sections × Fd
  | 0, _, _, _, _, t, fd => (t, fd)
  | n + 1, i, shdrptr, shdr, name, t, fd =>
    let r := fd.seekRead env shdrptr shdr sizeofShdr
    let r' := r.2.seekRead env (strs + shName r.1) name 12
    scanSections env strs shdrsize n (i + 1) ((shdrptr + shdrsize) % 65536) r.1 r'.1
      (t.note i r.1 r'.1) r'.2

/-! ## Symbols -/

/-- Where the sections are put in memory. -/
structure Addresses where
  bss : Nat
  data : Nat
  rodata : Nat
  text : Nat

/-- `elfloader_arch_allocate_ram` and `elfloader_arch_allocate_rom` in `elfloader_load`. -/
def Sections.addresses (env : LoadEnv) (t : Sections) : Addresses where
  bss := env.datamemory
  data := (env.datamemory + t.bsssize) % 65536
  rodata := (env.textmemory + t.text.size) % 65536
  text := env.textmemory

/-- The address of the section with the number, when it is one of the relevant ones. -/
def Sections.address (env : LoadEnv) (t : Sections) (number : Nat) : Option Nat :=
  let at_ := t.addresses env
  if number = t.bssNumber then some at_.bss
  else if number = t.dataNumber then some at_.data
  else if number = t.rodataNumber then some at_.rodata
  else if number = t.textNumber then some at_.text
  else none

/-- The loop over the symbol table in `find_local_symbol` and `find_program_processes`, from offset
    `a` on; `found` is the address of the symbol that has the name. 0 is `NULL`. -/
def searchSymtab (env : LoadEnv) (t : Sections) (found : Mem → Nat) (symbol : List UInt8) :
    Nat → Nat → Mem → Mem → Fd → Option (Nat × Fd)
  | 0, _, _, _, _ => none
  | fuel + 1, a, s, name, fd =>
    if a < (t.symtab.off + t.symtab.size) % 65536 then
      let next := (a + sizeofSym) % 65536
      let r := fd.seekRead env a s sizeofSym
      if stName r.1 ≠ 0 then
        let r' := r.2.seekRead env (t.strtab.off + stName r.1) name 30
        if cString 30 r'.1 = symbol then some (found r.1, r'.2)
        else searchSymtab env t found symbol fuel next r.1 r'.1 r'.2
      else searchSymtab env t found symbol fuel next r.1 name r.2
    else some (0, fd)

/-- `find_local_symbol`. -/
def findLocalSymbol (env : LoadEnv) (t : Sections) (fuel : Nat) (symbol : List UInt8) (fd : Fd) :
    Option (Nat × Fd) :=
  searchSymtab env t (fun s => match t.address env (stShndx s) with
    | some address => (address + stValue s) % 65536
    | none => 0) symbol fuel t.symtab.off (env.stack fd.ops 0) (env.stack fd.ops 1) fd

/-- `find_program_processes`. -/
def findProgramProcesses (env : LoadEnv) (t : Sections) (fuel : Nat) (fd : Fd) :
    Option (Nat × Fd) :=
  searchSymtab env t (fun s => ((t.addresses env).data + stValue s) % 65536)
    (literal "autostart_processes") fuel t.symtab.off (env.stack fd.ops 2) (env.stack fd.ops 3) fd

/-! ## Relocation -/

/-- `elfloader_arch_relocate`. -/
def elfloaderArchRelocate (env : LoadEnv) (sectionOffset : Nat) (rela : Mem) (addr : Nat)
    (fd : Fd) : Fd :=
  let addr := (addr + rAddend rela) % 65536
  let r := fd.seek env ((sectionOffset + rOffset rela) % 4294967296)
  r.2.write env sectionOffset (rOffset rela) r.1 [UInt8.ofNat addr, UInt8.ofNat (addr / 256)]

/-- The address of a symbol in `relocate_section`, or the value the function returns without one;
    with `name` and the descriptor. -/
def resolve (env : LoadEnv) (t : Sections) (fuel : Nat) (s name : Mem) (fd : Fd) :
    Option (Except Nat Nat × Mem × Fd) :=
  if stName s ≠ 0 then
    let r := fd.seekRead env (t.strtab.off + stName s) name 30
    let addr := env.symtabLookup (cString 30 r.1)
    if addr ≠ 0 then some (.ok addr, r)
    else (findLocalSymbol env t fuel (cString 30 r.1) r.2).map fun l =>
      if l.1 ≠ 0 then (.ok l.1, r.1, l.2)
      else match t.address env (stShndx s) with
        | some address => (.ok address, r.1, l.2)
        | none => (.error elfloaderSymbolNotFound, r.1, l.2)
  else match t.address env (stShndx s) with
    | some address => some (.ok address, name, fd)
    | none => some (.error elfloaderSegmentNotFound, name, fd)

/-- The entry of a section without addends: the addend is what stands at the place. -/
def fetchAddend (env : LoadEnv) (t : Sections) (sectionaddr : Nat) (rela : Mem) (fd : Fd) :
    Mem × Fd :=
  if t.usingRelas then (rela, fd)
  else
    let r := fd.seekRead env (sectionaddr + rOffset rela) (fun i => rela (8 + i)) 4
    (Mem.copy rela 8 (Mem.read r.1 0 4), r.2)

/-- The loop of `relocate_section` from the entry at offset `a` on; `stop` is where the entries
    end. -/
def relocateEntries (env : LoadEnv) (t : Sections) (sectionaddr stop : Nat) :
    Nat → Nat → Mem → Mem → Mem → Fd → Option (Nat × Fd)
  | 0, _, _, _, _, _ => none
  | fuel + 1, a, rela, s, name, fd =>
    if a < stop then
      let relSize := if t.usingRelas then sizeofRela else sizeofRel
      let r := fd.seekRead env a rela relSize
      let r' := r.2.seekRead env (t.symtab.off + sizeofSym * elf32RSym (rInfo r.1)) s sizeofSym
      match resolve env t fuel r'.1 name r'.2 with
      | none => none
      | some (.error ret, _, fd) => some (ret, fd)
      | some (.ok addr, name, fd) =>
        let e := fetchAddend env t sectionaddr r.1 fd
        relocateEntries env t sectionaddr stop fuel ((a + relSize) % 65536) e.1 r'.1 name
          (elfloaderArchRelocate env sectionaddr e.1 addr e.2)
    else some (elfloaderOk, fd)

/-- `relocate_section`; it is called only when there are entries. -/
def relocateSection (env : LoadEnv) (t : Sections) (fuel : Nat) (rela sec : Extent) (fd : Fd) :
    Option (Nat × Fd) :=
  if 0 < rela.size then
    relocateEntries env t sec.off ((rela.off + rela.size) % 65536) fuel rela.off (env.stack fd.ops 4)
      (env.stack fd.ops 5) (env.stack fd.ops 6) fd
  else some (elfloaderOk, fd)

/-! ## `elfloader_load` -/

/-- What follows a step that returned `ELFLOADER_OK`. -/
def andThen (x : Option (Nat × Fd)) (next : Fd → Option (Nat × Fd)) : Option (Nat × Fd) :=
  x.bind fun r => if r.1 = elfloaderOk then next r.2 else some r

/-- The end of `elfloader_load`: the sections are read into memory and the processes looked up. -/
def startPoint (env : LoadEnv) (t : Sections) (fuel : Nat) (fd : Fd) : Option (Nat × Fd) :=
  let fd := (fd.seekRead env t.text.off (env.stack fd.ops 7) t.text.size).2
  let fd := (fd.seekRead env t.rodata.off (env.stack fd.ops 8) t.rodata.size).2
  let fd := (fd.seekRead env t.data.off (env.stack fd.ops 9) t.data.size).2
  (findLocalSymbol env t fuel (literal "autostart_processes") fd).bind fun r =>
    if r.1 ≠ 0 then some (elfloaderOk, r.2)
    else (findProgramProcesses env t fuel r.2).map fun r => (elfloaderNoStartpoint, r.2)

/-- `elfloader_load` once the section headers are read. -/
def loadSections (env : LoadEnv) (t : Sections) (fuel : Nat) (fd : Fd) : Option (Nat × Fd) :=
  if t.symtab.size = 0 then some (elfloaderNoSymtab, fd)
  else if t.strtab.size = 0 then some (elfloaderNoStrtab, fd)
  else if t.text.size = 0 then some (elfloaderNoText, fd)
  else
    andThen (relocateSection env t fuel t.textrela t.text fd) fun fd =>
      andThen (relocateSection env t fuel t.rodatarela t.rodata fd) fun fd =>
        andThen (relocateSection env t fuel t.datarela t.data fd) (startPoint env t fuel)

/-- `elfloader_load`. -/
def elfloaderLoad (env : LoadEnv) (fuel : Nat) (fd : Fd) : Option (Nat × Fd) :=
  let ehdr := fd.seekRead env 0 (env.stack fd.ops 10) sizeofEhdr
  if Mem.read ehdr.1 0 7 ≠ elfMagicHeader then some (elfloaderBadElfHeader, ehdr.2)
  else
    let shoff := eShoff ehdr.1
    let shdrsize := eShentsize ehdr.1
    let shdr := ehdr.2.seekRead env shoff (env.stack fd.ops 11) sizeofShdr
    let strtable := shdr.2.seekRead env (shoff + shdrsize * eShstrndx ehdr.1) (env.stack fd.ops 12)
      sizeofShdr
    let r := scanSections env (shOffset strtable.1 % 65536) shdrsize (eShnum ehdr.1) 0
      (shoff % 65536) shdr.1 (env.stack fd.ops 13) Sections.start strtable.2
    loadSections env r.1 fuel r.2

/-- `codeload`: the value it returns, which is 1 when the file cannot be opened, and the descriptor at
    the end. -/
def codeload (env : LoadEnv) (fuel : Nat) (f : File) : Option (Nat × Fd) :=
  if env.opened then elfloaderLoad env fuel ⟨f, 0, 0, []⟩ else some (1, ⟨f, 0, 0, []⟩)

end Adler.Loader
