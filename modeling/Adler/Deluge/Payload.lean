/-
  Where the bytes of a broadcast packet come from. `send_page` drops the result of `read_page`; the
  part of the page that was not read is what the local buffer held before.

  * `bytesRead`: how many bytes `read_page` gets.
  * `Covers`: every packet asked for lies within them.
  * `payload_from_file_iff`: the packets depend on the file alone, and none is sent of a page that
    could not be read, exactly when every packet asked for was read.
-/
import Adler.Deluge.Network

namespace Adler.Deluge

open Lib (Mem Reach Always)
open Node

/-- How many bytes `read_page` gets; none when it returns -1. -/
def bytesRead (env : Env) (pagenum : Nat) (f : File) : Nat :=
  if env.seek then
    match env.xfer with
    | none => 0
    | some n => min (min sPage n) (f.len - pagenum * sPage)
  else 0

/-- The packets of `set` lie within what `read_page` gets. -/
def Covers (env : Env) (pagenum : Nat) (f : File) (set : Nat) : Prop :=
  ∀ k < nPkt, set.testBit k = true → sPkt * k + sPkt ≤ bytesRead env pagenum f

instance (env : Env) (pagenum : Nat) (f : File) (set : Nat) : Decidable (Covers env pagenum f set) :=
  inferInstanceAs (Decidable (∀ k < nPkt, _ → _))

/-- The environment with other bytes in the local buffer. -/
def Env.withStack (stack : Mem) (env : Env) : Env := { env with stack := stack }

/-- The packet buffers broadcast by the latest event, in order. -/
def Node.broadcasts (s : Node) : List (List UInt8) :=
  s.effects.reverse.filterMap fun
    | .broadcast bytes => some bytes
    | _ => none

section

variable (env : Env) (i : Nat) (f : File) (s : Node)

/-- The end of the file after `cfs_seek` does not matter: what it adds is read as nothing. -/
theorem cfsSeek_len (offset : Nat) : (cfsSeek offset f).len - offset = f.len - offset := by
  simp only [cfsSeek]
  omega

/-- A byte of the buffer is the file's when it was read, and else what it was before. -/
theorem readFile_at (buf : Mem) (k : Nat) :
    (readFile env i buf f).2.1 k =
      if k < bytesRead env i f then f.data (i * sPage + k) else buf k := by
  unfold readFile bytesRead
  dsimp only
  match env.seek, env.xfer with
  | false, _ => rfl
  | true, none => rfl
  | true, some n =>
    simp only [if_true, cfsSeek_len]
    split
    · rw [Mem.copy_of_mem _ _ _ (Nat.zero_le k) (by rw [Mem.length_read]; omega), Nat.sub_zero,
        Mem.getD_read _ _ _ _ ‹_›]
      rfl
    · exact Mem.copy_of_not_mem _ _ _ (.inr (by rw [Mem.length_read]; omega))

/-- `read_page` fails only when it reads nothing. -/
theorem bytesRead_of_failed {buf : Mem} (h : (readFile env i buf f).1 < 0) :
    bytesRead env i f = 0 := by
  unfold readFile at h
  unfold bytesRead
  match hs : env.seek, hx : env.xfer with
  | false, _ => simp
  | true, none => simp
  | true, some n =>
    simp only [hs, hx, if_true] at h
    omega

/-- What `send_page` broadcasts. -/
theorem sendPage_broadcasts :
    (sendPage env i s).broadcasts = s.broadcasts ++
      ((List.range nPkt).filter fun k => s.txSet.testBit k).map fun k =>
        (packetOf s i (readFile env i env.stack s.file).2.1 k).bytes := by
  have heffects : (sendPage env i s).effects =
      (((List.range nPkt).filter fun k => s.txSet.testBit k).map fun k =>
        Effect.broadcast (packetOf s i (readFile env i env.stack s.file).2.1 k).bytes).reverse ++
          .page i s.entries :: s.effects := sendPackets_eq _ i _
  simp only [Node.broadcasts, heffects, List.reverse_append, List.reverse_reverse,
    List.reverse_cons, List.filterMap_append, List.filterMap_map, List.append_assoc]
  congr 1
  simp

end

/-- Two packets of equal bytes have equal payloads. -/
theorem payload_of_bytes {m m' : DelugeMsgPacket} (h : m.payload.length = m'.payload.length)
    (hb : m.bytes = m'.bytes) : m.payload = m'.payload := by
  simp only [DelugeMsgPacket.bytes, List.cons_append, List.nil_append, List.cons.injEq] at hb
  exact (List.append_inj hb.2.2.2.2.2.2.2 h).1

/-- The packets of `send_page` are a function of the file: the prior contents of the local buffer do
    not show in them, and there is none when `read_page` fails. -/
def PayloadFromFile (env : Env) (i : Nat) (s : Node) : Prop :=
  (∀ stack stack', (sendPage (env.withStack stack) i s).broadcasts =
      (sendPage (env.withStack stack') i s).broadcasts) ∧
    ((readPage env i env.stack s).1 < 0 → (sendPage env i s).broadcasts = s.broadcasts)

section

variable {env : Env} {i : Nat} {s : Node}

/-- A packet that was read has the file's bytes. -/
theorem packetOf_payload_covered {k : Nat} (h : sPkt * k + sPkt ≤ bytesRead env i s.file)
    (buf : Mem) :
    (packetOf s i (readFile env i buf s.file).2.1 k).payload =
      Mem.read s.file.data (i * sPage + sPkt * k) sPkt := by
  show Mem.read _ _ _ = _
  rw [Mem.read_eq_iff]
  intro j hj
  rw [readFile_at, if_pos (by omega), Nat.add_assoc]

/-- The payload decides the packet. -/
theorem packetOf_congr {buf buf' : Mem} {k : Nat}
    (h : (packetOf s i buf k).payload = (packetOf s i buf' k).payload) :
    packetOf s i buf k = packetOf s i buf' k := by
  simp only [packetOf] at h ⊢
  rw [h]

/-- A packet that was not read whole shows the buffer. -/
theorem packetOf_payload_uncovered {k : Nat}
    (h : bytesRead env i s.file < sPkt * k + sPkt) (buf : Mem) :
    (packetOf s i (readFile env i buf s.file).2.1 k).payload.getD 63 0 =
      buf (sPkt * k + 63) := by
  show (Mem.read _ _ _).getD 63 0 = _
  rw [Mem.getD_read _ _ _ _ (by decide), readFile_at, if_neg (by simp only [sPkt] at h ⊢; omega)]

/-- A packet that was not read whole gives the buffer away. -/
theorem covers_of_payloadFromFile (h : PayloadFromFile env i s) : Covers env i s.file s.txSet := by
  intro k hk hbit
  by_contra hlt
  have heq := h.1 (fun _ => 0) fun _ => 1
  rw [sendPage_broadcasts, sendPage_broadcasts, List.append_cancel_left_eq,
    List.map_inj_left] at heq
  have hbytes := heq k (List.mem_filter.mpr ⟨List.mem_range.mpr hk, hbit⟩)
  have hpayload := payload_of_bytes (by rw [packetOf_payload, packetOf_payload]) hbytes
  have hbyte := congrArg (fun l => List.getD l 63 0) hpayload
  have hshort : bytesRead env i s.file < sPkt * k + sPkt := Nat.lt_of_not_le hlt
  have h0 := packetOf_payload_uncovered hshort fun _ => 0
  have h1 := packetOf_payload_uncovered hshort fun _ => 1
  exact absurd (h0.symm.trans (hbyte.trans h1)) (by decide)

theorem payloadFromFile_of_covers (h : Covers env i s.file s.txSet) : PayloadFromFile env i s := by
  refine ⟨fun stack stack' => ?_, fun hfail => ?_⟩
  · rw [sendPage_broadcasts, sendPage_broadcasts, List.append_cancel_left_eq]
    apply List.map_congr_left
    intro k hk
    obtain ⟨hk, hbit⟩ := List.mem_filter.mp hk
    have hread := h k (List.mem_range.mp hk) hbit
    have h0 := packetOf_payload_covered hread stack
    have h1 := packetOf_payload_covered hread stack'
    exact congrArg DelugeMsgPacket.bytes (packetOf_congr (h0.trans h1.symm))
  · have hnone : bytesRead env i s.file = 0 := bytesRead_of_failed env i s.file hfail
    have hempty : ((List.range nPkt).filter fun k => s.txSet.testBit k) = [] := by
      apply List.filter_eq_nil_iff.mpr
      intro k hk hbit
      have hread := h k (List.mem_range.mp hk) hbit
      rw [hnone] at hread
      exact absurd hread (by simp)
    rw [sendPage_broadcasts, hempty, List.map_nil, List.append_nil]

end

/-- **Broadcast payloads come from the file** exactly when every packet asked for lies within what
    `read_page` got. -/
theorem payload_from_file_iff (env : Env) (i : Nat) (s : Node) :
    PayloadFromFile env i s ↔ Covers env i s.file s.txSet :=
  ⟨covers_of_payloadFromFile, payloadFromFile_of_covers⟩

/-- A gateway with a file of 100 bytes is asked for page 0: three of the four packets are made of
    what the local buffer held. -/
theorem payload_shows_buffer :
    ∃ s, Reach (Tx.Booted (zeroFile 100) 0) Tx.Step Always s ∧ s.txTimer = true ∧
      s.object.Queued ∧ ¬ PayloadFromFile quietEnv s.currentTxPage.toNat s := by
  obtain ⟨s, hs, hp⟩ := Tx.exists_of_run 100 0 Always [hearRequest 0 0]
    (fun s => decide (s.txTimer = true ∧ s.object.Queued ∧
      ¬ Covers quietEnv s.currentTxPage.toNat s.file s.txSet)) (by decide +kernel)
  obtain ⟨htimer, hqueued, hcovers⟩ := of_decide_eq_true hp
  exact ⟨s, hs, htimer, hqueued, fun h => hcovers (covers_of_payloadFromFile h)⟩

end Adler.Deluge
