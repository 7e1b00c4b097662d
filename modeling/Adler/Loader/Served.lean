/-
  What a node serves after it has loaded its image. Deluge and the loader share the file, and the
  loader relocates in it.

  * `codeload_frame`: after `codeload`, whatever it returns, the pages that `read_page` and `send_page`
    deliver are the ones received, except for the bytes a relocation stored.
  * `codeload_spoils`: a node receives an image and starts it; it then serves another one.
-/
import Adler.Loader.Frame
import Adler.Deluge.Commit
import Adler.Deluge.Effects
import Mathlib.Algebra.Group.Nat.Defs

namespace Adler.Loader

open Lib (Mem Reach)
open Deluge
open Deluge.Rx (OtaStep otaNext otaNext_step ota Booted booted_boot)
open Fd (Reads)

variable {env : LoadEnv} {fuel : Nat}

/-- Byte `k` of the page is among those `read_page` gets. -/
def reaches (io : Env) (k : Nat) : Bool :=
  io.seek && match io.xfer with
    | some n => decide (k < n)
    | none => false

/-- A byte of a page, as `read_page` leaves it in the buffer. -/
theorem readFile_reaches (io : Env) (i : Nat) (buf : Mem) (f : File) {k : Nat} (hk : k < sPage)
    (hin : i * sPage + k < f.len) :
    (readFile io i buf f).2.1 k = if reaches io k then f.data (i * sPage + k) else buf k := by
  unfold readFile reaches
  dsimp only
  match io.seek, io.xfer with
  | false, _ => rfl
  | true, none => rfl
  | true, some n =>
    have hlen : (cfsSeek (i * sPage) f).len = max f.len (i * sPage) := rfl
    simp only [Bool.true_and, decide_eq_true_eq, if_true]
    split
    · rw [Mem.copy_of_mem _ _ _ (Nat.zero_le k) (by rw [Mem.length_read]; omega), Nat.sub_zero,
        Mem.getD_read _ _ _ _ (by omega)]
      rfl
    · exact Mem.copy_of_not_mem _ _ _ (.inr (by rw [Mem.length_read]; omega))

/-- The packets of a page are made of what `read_page` left in the buffer. -/
theorem sendPackets_congr (i : Nat) {buf buf' : Mem} (s s' : Node)
    (hpages : s'.pages = s.pages) (hid : s'.objectId = s.objectId) (hset : s'.txSet = s.txSet)
    (heffects : s'.effects = s.effects)
    (hbuf : ∀ k < nPkt, Mem.read buf' (sPkt * k) sPkt = Mem.read buf (sPkt * k) sPkt) :
    (sendPackets i buf' s').effects = (sendPackets i buf s).effects := by
  rw [sendPackets_eq, sendPackets_eq, hset, heffects]
  congr 2
  apply List.map_congr_left
  intro k hk
  obtain ⟨hk, -⟩ := List.mem_filter.mp hk
  simp only [packetOf, hpages, hid, hbuf k (List.mem_range.mp hk)]

/-- A page whose bytes are the same in both files is sent alike. -/
theorem sendPage_congr (io : Env) (i : Nat) (s : Node) {f' : File} (hlen : s.file.len ≤ f'.len)
    (hin : i * sPage + sPage ≤ s.file.len)
    (hsame : ∀ k < sPage, f'.data (i * sPage + k) = s.file.data (i * sPage + k)) :
    (sendPage io i { s with file := f' }).effects = (sendPage io i s).effects := by
  refine sendPackets_congr i _ _ rfl rfl rfl rfl ?_
  intro k hk
  apply Mem.read_congr
  intro j hj
  have hbyte : sPkt * k + j < sPage := by
    simp only [sPkt, nPkt, sPage] at hk hj ⊢
    omega
  show (readFile io i io.stack f').2.1 _ = (readFile io i io.stack s.file).2.1 _
  rw [readFile_reaches io i _ f' hbyte (by omega), readFile_reaches io i _ s.file hbyte (by omega),
    hsame _ hbyte]

/-- **Loading relocates in place and changes nothing else.** Whatever the image and whatever `codeload`
    returns, every byte of the file is as before unless a relocation stored it: two bytes at most, at
    the section offset plus `r_offset`. A load that ends before the relocations stores none. So
    `read_page` delivers each byte of the file as before the load unless it was relocated, and
    `send_page` sends the same packets of every page in which no byte was. -/
theorem codeload_frame {f : File} {r : Nat × Fd} (h : codeload env fuel f = some r) :
    (∀ p, ¬ r.2.Wrote p → r.2.file.data p = f.data p) ∧
    (∀ w ∈ r.2.writes, w.Relocates) ∧
    (EarlyExit r.1 → r.2.writes = []) ∧
    (∀ io i buf k, k < sPage → i * sPage + k < f.len → ¬ r.2.Wrote (i * sPage + k) →
      (readFile io i buf r.2.file).2.1 k = (readFile io i buf f).2.1 k) ∧
    ∀ io i (s : Node), s.file = f → i * sPage + sPage ≤ f.len →
      (∀ k < sPage, ¬ r.2.Wrote (i * sPage + k)) →
      (sendPage io i { s with file := r.2.file }).effects = (sendPage io i s).effects := by
  have hext : Fd.Extends ⟨f, 0, 0, []⟩ r.2 ∧ (EarlyExit r.1 → r.2.writes = []) := by
    unfold codeload at h
    split at h
    · exact ⟨elfloaderLoad_extends h, fun hearly => (elfloaderLoad_early h hearly).log⟩
    · cases h
      exact ⟨(Reads.refl _).extends, fun _ => rfl⟩
  obtain ⟨hext, hearly⟩ := hext
  have hlen : f.len ≤ r.2.file.len := hext.len
  refine ⟨hext.data, ?_, hearly, ?_, ?_⟩
  · obtain ⟨ws, hlog, hws⟩ := hext.log
    rw [hlog, List.append_nil]
    exact hws
  · intro io i buf k hk hin hout
    rw [readFile_reaches io i buf _ hk (Nat.lt_of_lt_of_le hin hlen), readFile_reaches io i buf f hk hin,
      hext.data _ hout]
  · rintro io i s rfl hin hout
    exact sendPage_congr io i s hlen hin fun k hk => hext.data _ (hout k hk)

/-! ## An image with one relocation -/

/-- A field of `n` bytes. -/
def field (n v : Nat) : List UInt8 := (List.range n).map fun i => UInt8.ofNat (v / 256 ^ i)

/-- A section header; `rest` stands where its last four fields are. -/
def sectionHeader (name type offset size : Nat) (rest : List UInt8) : List UInt8 :=
  field 4 name ++ field 4 type ++ field 8 0 ++ field 4 offset ++ field 4 size ++ rest

/-- An image of one page: two bytes of text at 24, a relocation entry of zeros at 8, the symbol
    `autostart_processes` at 196, inside the last section header, and the strings at 212. -/
def image : List UInt8 :=
  elfMagicHeader ++ field 25 0 ++ field 4 52 ++ field 10 0 ++ field 2 40 ++ field 2 4 ++
    field 2 1 ++ sectionHeader 1 1 24 2 (field 16 0) ++ sectionHeader 0 3 212 38 (field 16 0) ++
    sectionHeader 0 2 196 16 (field 16 0) ++
    sectionHeader 7 4 8 12 (field 4 18 ++ field 12 0) ++ 0 :: literal ".text" ++
    0 :: literal ".rela.text" ++ 0 :: literal "autostart_processes" ++ field 7 0

/-- A load in which every file operation succeeds and no symbol is one of the firmware's. -/
def quietLoad : LoadEnv :=
  ⟨true, fun _ => true, fun _ => some 65536, fun _ _ _ => 0, fun _ => 0, 0x1000, 0x2000⟩

/-- The arrival of packet `k` of the image as version 1. -/
def hearImage (k : Nat) : Env × Event :=
  let payload := (image.drop (sPkt * k)).take sPkt
  hear (DelugeMsgPacket.bytes ⟨1, 0, k, crc16Data payload 0, 0, payload⟩)

/-- Bytes 24 and 25 of the image are relocated, and byte 26 is as it was. -/
theorem codeload_frame_image :
    ∃ r, codeload quietLoad 4 ⟨fun i => image.getD i 0, sPage⟩ = some r ∧ r.2.Wrote 25 ∧
      r.2.file.data 26 = image.getD 26 0 := by
  have hrun : (codeload quietLoad 4 ⟨fun i => image.getD i 0, sPage⟩).map
      (fun r => decide (r.2.Wrote 25 ∧ ¬ r.2.Wrote 26)) = some true := by decide +kernel
  obtain ⟨r, hr, hp⟩ := Option.map_eq_some_iff.mp hrun
  obtain ⟨hwrote, hout⟩ := of_decide_eq_true hp
  exact ⟨r, hr, hwrote, (codeload_frame hr).1 26 hout⟩

/-- The update is committed, and the load that follows changes byte 25 of what `read_page` gets. -/
def SpoiledByLoad (s : Node) : Bool :=
  decide (s.updateState = true ∧ s.version = s.updateVersion ∧ s.object.AllComplete) &&
    match codeload quietLoad 4 s.file with
    | some r => decide (r.1 = elfloaderOk ∧
      (readFile quietEnv 0 (fun _ => 0) r.2.file).2.1 25 ≠
        (readFile quietEnv 0 (fun _ => 0) s.file).2.1 25)
    | none => false

/-- A node receives the image, commits it and starts it. What it then reads of page 0 to answer a
    request is not what it received. -/
theorem codeload_spoils :
    ∃ s r, Reach (Booted (zeroFile 256) 0) OtaStep Lib.Always s ∧
      (s.updateState = true ∧ s.version = s.updateVersion ∧ s.object.AllComplete) ∧
      codeload quietLoad 4 s.file = some r ∧ r.1 = elfloaderOk ∧
      (readFile quietEnv 0 (fun _ => 0) r.2.file).2.1 25 ≠
        (readFile quietEnv 0 (fun _ => 0) s.file).2.1 25 := by
  obtain ⟨s, hs, hp⟩ := Reach.exists_of_run Lib.Always otaNext_step
    ((hearProfile 1 [1] :: (List.range nPkt).map hearImage).map ota) SpoiledByLoad
    (booted_boot 256 0) (by decide +kernel)
  obtain ⟨hcommit, hload⟩ := Bool.and_eq_true_iff.mp hp
  split at hload
  · rename_i r hr
    obtain ⟨hok, hne⟩ := of_decide_eq_true hload
    exact ⟨s, r, hs, of_decide_eq_true hcommit, hr, hok, hne⟩
  · cases hload

end Adler.Loader
