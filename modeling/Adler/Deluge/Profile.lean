/-
  The profile message on both sides: `send_profile` writes a header and one version byte for each
  page, `command_dispatcher` tests `len >= 4 + npages * version_vector[0]` where the message it
  wants has `4 + npages` bytes.

  * `passesProfile_iff`: what the dispatcher tests, as one inequality.
  * `profileOf_passes_iff`: the profile a node sends is passed on exactly when the node has no
    pages or its first page has version 0 or 1.
  * `Packetbuf.TestAgrees`: the buffers on which the test decides what it should.
  * `profile_agreement`: the two together.
-/
import Adler.Deluge.Refinement

namespace Adler.Deluge

open Lib (Mem)

/-- `command_dispatcher` calls `handle_profile` for this buffer. -/
def Packetbuf.PassesProfile (b : Packetbuf) : Prop := ∃ m, b.message = some (.profile m)

/-- The packet buffer of a node that receives the profile `s` sends. -/
def profileBuf (s : Node) (stale : Mem) : Packetbuf :=
  .ofBytes ((profileOf s).bytes.take packetbufSize) stale

/-- The length of a message with all version bytes the header announces. -/
def Packetbuf.profileLength (b : Packetbuf) : Nat := sizeofProfile + b.byte 2

/-- The test `len >= 4 + npages * version_vector[0]` says the same as `len >= 4 + npages`: there
    are no pages, or the first version byte is 1; if it is 0, the message is not one with a
    complete header and too few version bytes; if it is 2 or more, the message is not one with
    all its version bytes but fewer than `4 + npages * version_vector[0]` bytes. -/
def Packetbuf.TestAgrees (b : Packetbuf) : Prop :=
  b.byte 2 = 0 ∨ b.byte 4 = 1 ∨
    (b.byte 4 = 0 ∧ (b.len < sizeofProfile ∨ b.profileLength ≤ b.len)) ∨
    (2 ≤ b.byte 4 ∧ (b.len < b.profileLength ∨ sizeofProfile + b.byte 2 * b.byte 4 ≤ b.len))

theorem passesProfile_iff {b : Packetbuf} (h : b.byte 0 = delugeCmdProfile) :
    b.PassesProfile ↔ sizeofProfile + b.byte 2 * b.byte 4 ≤ b.len := by
  have hok : profileLengthOk b ↔
      sizeofProfile ≤ b.len ∧ sizeofProfile + b.byte 2 * b.byte 4 ≤ b.len := Iff.rfl
  constructor
  · rintro ⟨m, hm⟩
    exact (hok.mp (message_profile hm).2.2).2
  · intro hlen
    have h1 : ¬ b.len < 1 := by
      simp only [sizeofProfile] at hlen
      omega
    have hpass : profileLengthOk b := hok.mpr ⟨by omega, hlen⟩
    refine ⟨.ofBuf b, ?_⟩
    unfold Packetbuf.message
    rw [if_neg h1, h]
    simp [hpass]

/-- Where the first version byte is 1 the test is the right one, and where there are pages it is
    too weak below 1 and too strong above. -/
theorem testAgrees_iff {b : Packetbuf} (h : b.byte 0 = delugeCmdProfile) :
    (b.PassesProfile ↔ b.profileLength ≤ b.len) ↔ b.TestAgrees := by
  rw [passesProfile_iff h]
  unfold Packetbuf.TestAgrees Packetbuf.profileLength
  simp only [sizeofProfile]
  obtain hn | hn := Nat.eq_zero_or_pos (b.byte 2)
  · simp [hn]
  obtain hv | hv | hv : b.byte 4 = 0 ∨ b.byte 4 = 1 ∨ 2 ≤ b.byte 4 := by omega
  · have hmul : b.byte 2 * b.byte 4 = 0 := by rw [hv, Nat.mul_zero]
    constructor
    · intro hiff
      have := hiff.mp
      omega
    · intro hagrees
      omega
  · simp [hv]
  · have hmul : b.byte 2 * 2 ≤ b.byte 2 * b.byte 4 := Nat.mul_le_mul_left _ hv
    omega

section

variable (s : Node) (stale : Mem)

theorem length_profileOf : (profileOf s).bytes.length = 4 + s.pageCount := by
  rw [DelugeMsgProfile.length_bytes, profileOf, Nat.mod_eq_of_lt]
  have := pageCount_le s
  omega

/-- What a receiver finds in the packet buffer: the fields of the sender, and those version bytes
    that the sender's packet buffer had room for. -/
theorem ofBuf_profileBuf :
    (DelugeMsgProfile.ofBuf (profileBuf s stale)).version = s.version % 256 ∧
      (DelugeMsgProfile.ofBuf (profileBuf s stale)).npages = s.pageCount ∧
      ∀ i, i < s.pageCount → i < 124 →
        (DelugeMsgProfile.ofBuf (profileBuf s stale)).versionVector i =
          (s.pages i).version % 256 := by
  have hlt : s.pageCount % 256 = s.pageCount :=
    Nat.mod_eq_of_lt (Nat.lt_succ_of_le (pageCount_le s))
  obtain ⟨hversion, hnpages, hvector⟩ :=
    DelugeMsgProfile.ofBuf_bytes stale (profileOf s) packetbufSize (by simp)
  refine ⟨hversion, ?_, ?_⟩
  · rw [profileBuf, hnpages, profileOf, Nat.mod_mod, hlt]
  · intro i hi hfit
    refine hvector i ?_ ?_
    · rw [profileOf, hlt]
      exact hi
    · simp only [packetbufSize]
      omega

theorem byte_zero_profileBuf : (profileBuf s stale).byte 0 = delugeCmdProfile := by
  have hlen := length_profileOf s
  have h0 : 0 < ((profileOf s).bytes.take packetbufSize).length := by
    rw [List.length_take, hlen]
    simp only [packetbufSize]
    omega
  rw [profileBuf, Packetbuf.byte_ofBytes _ _ h0, List.getElem_take]
  simp [DelugeMsgProfile.bytes]

theorem len_profileBuf : (profileBuf s stale).len = min 128 (4 + s.pageCount) := by
  rw [profileBuf, Packetbuf.len_ofBytes, List.length_take, length_profileOf]

/-- When the profile fits the packet buffer, it is passed on exactly when the first page, if there
    is one, has version 0 or 1. -/
theorem profileOf_passes_iff (h : s.pageCount ≤ 124) :
    (profileBuf s stale).PassesProfile ↔ s.pageCount = 0 ∨ (s.pages 0).version % 256 ≤ 1 := by
  obtain ⟨_, hnpages, hvector⟩ := ofBuf_profileBuf s stale
  have hn : (profileBuf s stale).byte 2 = s.pageCount := hnpages
  rw [passesProfile_iff (byte_zero_profileBuf s stale), len_profileBuf, hn]
  simp only [sizeofProfile]
  obtain h0 | h0 := Nat.eq_zero_or_pos s.pageCount
  · simp [h0]
  have hv : (profileBuf s stale).byte 4 = (s.pages 0).version % 256 := hvector 0 h0 (by omega)
  rw [hv]
  constructor
  · intro hle
    right
    by_contra hge
    have hmul : s.pageCount * 2 ≤ s.pageCount * ((s.pages 0).version % 256) :=
      Nat.mul_le_mul_left _ (by omega)
    omega
  · rintro (hz | hv1)
    · omega
    · have hmul : s.pageCount * ((s.pages 0).version % 256) ≤ s.pageCount * 1 :=
        Nat.mul_le_mul_left _ hv1
      omega

end

/-- **Profile encoding and decoding.** A sent profile reaches `handle_profile` exactly when the
    first page's version is at most 1 (or there is no page); of the received byte strings that
    start as a profile, those on which the dispatcher decides as the message length demands are
    the ones on which the test agrees. -/
theorem profile_agreement (s : Node) (stale : Mem) (b : Packetbuf) (hs : s.pageCount ≤ 124)
    (hb : b.byte 0 = delugeCmdProfile) :
    ((profileBuf s stale).PassesProfile ↔ s.pageCount = 0 ∨ (s.pages 0).version % 256 ≤ 1) ∧
      ((b.PassesProfile ↔ b.profileLength ≤ b.len) ↔ b.TestAgrees) :=
  ⟨profileOf_passes_iff s stale hs, testAgrees_iff hb⟩

/-- A node with one page, all in version `v`. -/
def onePage (v : Nat) : Node :=
  { Node.zero with size := 256, version := v, pages := fun _ => ⟨15, 0, 0, 0, 1, v⟩ }

/-- A profile of a version 0 image of 200 pages of which only the header has arrived. -/
def headerOnly : Packetbuf := ⟨fun i => [4, 2, 200, 0].getD i 0, 4⟩

theorem profile_agreement_at :
    ((profileBuf (onePage 1) fun _ => 0).PassesProfile ↔
      (onePage 1).pageCount = 0 ∨ ((onePage 1).pages 0).version % 256 ≤ 1) ∧
    ((headerOnly.PassesProfile ↔ headerOnly.profileLength ≤ headerOnly.len) ↔
      headerOnly.TestAgrees) :=
  profile_agreement (onePage 1) (fun _ => 0) headerOnly (by decide) (by decide)

/-- The profile of a one-page node at version 2 is not passed on, and a header without any of the
    200 version bytes it announces is. -/
theorem profile_disagreement :
    ((onePage 2).pageCount ≤ 124 ∧ ¬ (profileBuf (onePage 2) fun _ => 0).PassesProfile) ∧
    (headerOnly.byte 0 = delugeCmdProfile ∧ headerOnly.PassesProfile ∧
      headerOnly.len < headerOnly.profileLength) := by
  refine ⟨⟨by decide, ?_⟩, by decide, ?_, by decide⟩
  · rw [profileOf_passes_iff _ _ (by decide)]
    decide
  · rw [passesProfile_iff (by decide)]
    decide

end Adler.Deluge
