/-
  One wrong byte between the gateway and `network_control`: the check byte is the exclusive or of
  everything it covers, so it changes with any one byte of it.

  * `Globals`: `NET_cmd` and the log of `net_interface.cpp` beside the decoder. A run of it is a run
    of the decoder (`feed_receive`), and without a frame neither changes (`feed_receive_nil`).
  * `getCheck_update`: the check byte of a buffer after one write.
  * `set_frameBytes`: the bytes of a frame, with another byte behind the length byte, are those of
    some frame of the same length with a check byte that is not its own.
  * `corrupted_rejected`: `network_control` rejects them, and delivers the frame behind them.
-/
import Adler.Serial.RoundTrip

namespace Adler.Serial

open Lib (Mem Machine)
open Decoder

/-! ## `data_decode` -/

namespace NetInterface

/-- `CMD_FRAME`. -/
@[simp] abbrev cmdFrame : UInt8 := 1

/-- `REPORT_FRAME`. -/
@[simp] abbrev reportFrame : UInt8 := 2

/-- The variables of `net_interface.cpp`, and the addresses `net_data_record` has logged. -/
structure Globals where
  decoder : Decoder
  netCmd : UInt8
  reports : List UInt16

namespace Globals

/-- The program before the first byte. -/
def start : Globals := ⟨Decoder.start, 255, []⟩

/-- `data_decode`, which finds the data of the frame in `data_buf`. -/
def dataDecode (g : Globals) : Globals :=
  if g.decoder.frameId = cmdFrame then { g with netCmd := g.decoder.dataBuf 2 }
  else if g.decoder.frameId = reportFrame then
    { g with reports := g.reports ++
        [(g.decoder.dataBuf 2).toUInt16 + 256 * (g.decoder.dataBuf 3).toUInt16] }
  else g

/-- `frame_decode` with its call of `data_decode`, which comes before `data_buf` is cleared. -/
def receive : Machine UInt8 Globals PortFrame := fun ch g =>
  (frameDecode ch g.decoder).map fun r =>
    ({ (if r.2 = [] then g else g.dataDecode) with decoder := r.1 }, r.2)

variable {g : Globals}

/-- The decoder does not depend on what `data_decode` does. -/
theorem feed_receive (bytes : List UInt8) (g : Globals) :
    (receive.feed bytes g).map (fun r => (r.1.decoder, r.2)) =
      frameDecode.feed bytes g.decoder := by
  induction bytes generalizing g with
  | nil => rfl
  | cons ch bytes ih =>
    match hstep : frameDecode ch g.decoder with
    | none => simp only [Machine.feed, receive, hstep, Option.map_none, Option.bind_none]
    | some (d', fs) =>
      have hrec : receive ch g =
          some ({ (if fs = [] then g else g.dataDecode) with decoder := d' }, fs) := by
        rw [receive, hstep]
        rfl
      have hrest := ih { (if fs = [] then g else g.dataDecode) with decoder := d' }
      rw [Machine.feed_cons hrec, Machine.feed_cons hstep, ← hrest, Option.map_map, Option.map_map]
      rfl

theorem exists_feed_receive {bytes : List UInt8} {d' : Decoder} {fs : List PortFrame}
    (hfeed : frameDecode.feed bytes g.decoder = some (d', fs)) :
    ∃ g', receive.feed bytes g = some (g', fs) ∧ g'.decoder = d' := by
  rw [← feed_receive, Option.map_eq_some_iff] at hfeed
  obtain ⟨⟨g', out⟩, hg', heq⟩ := hfeed
  cases heq
  exact ⟨g', hg', rfl⟩

theorem feed_decoder {bytes : List UInt8} {g' : Globals} {fs : List PortFrame}
    (hfeed : receive.feed bytes g = some (g', fs)) :
    frameDecode.feed bytes g.decoder = some (g'.decoder, fs) := by
  rw [← feed_receive, hfeed]
  rfl

/-- Bytes that complete no frame change nothing but the decoder. -/
theorem feed_receive_nil {bytes : List UInt8} {g' : Globals}
    (hfeed : receive.feed bytes g = some (g', [])) :
    g'.netCmd = g.netCmd ∧ g'.reports = g.reports := by
  induction bytes generalizing g with
  | nil =>
    cases hfeed
    exact ⟨rfl, rfl⟩
  | cons ch bytes ih =>
    obtain ⟨t, out₁, out₂, hstep, hrest, hout⟩ := Machine.exists_of_feed_cons hfeed
    obtain ⟨rfl, rfl⟩ := List.append_eq_nil_iff.mp hout.symm
    obtain ⟨⟨d', fs⟩, -, heq⟩ := Option.map_eq_some_iff.mp hstep
    cases heq
    exact ih (g := { g with decoder := d' }) hrest

end Globals

end NetInterface

/-! ## The check byte -/

/-- The loop of `get_check` after one write behind the length byte. -/
theorem foldl_check_update (m : Mem) (b r : UInt8) {j : Nat} (hj : 1 ≤ j) (len : Nat) :
    (List.range len).foldl (fun ret i => ret ^^^ Function.update m j b (i + 1)) r =
      (List.range len).foldl (fun ret i => ret ^^^ m (i + 1)) r ^^^
        if j ≤ len then m j ^^^ b else 0 := by
  induction len with
  | zero =>
    have hnot : ¬ j ≤ 0 := by omega
    rw [if_neg hnot, UInt8.xor_zero]
    rfl
  | succ len ih =>
    rw [List.range_succ, List.foldl_append, List.foldl_append, ih]
    simp only [List.foldl_cons, List.foldl_nil]
    by_cases hle : j ≤ len
    · -- the written byte is already in
      rw [if_pos hle, if_pos (Nat.le_succ_of_le hle), Function.update_of_ne (by omega),
        UInt8.xor_assoc, UInt8.xor_comm (m j ^^^ b), ← UInt8.xor_assoc]
    · by_cases heq : j = len + 1
      · subst heq
        rw [if_neg hle, if_pos (Nat.le_refl _), Function.update_self, UInt8.xor_zero,
          UInt8.xor_assoc, ← UInt8.xor_assoc (m (len + 1)), UInt8.xor_self, UInt8.zero_xor]
      · have hgt : ¬ j ≤ len + 1 := by omega
        rw [if_neg hle, if_neg hgt, Function.update_of_ne (Ne.symm heq), UInt8.xor_zero,
          UInt8.xor_zero]

/-- `get_check` after one write to what it covers. -/
theorem getCheck_update (m : Mem) (b : UInt8) {j : Nat} (hj : 1 ≤ j) (hle : j ≤ (m 0).toNat) :
    getCheck (Function.update m j b) = getCheck m ^^^ (m j ^^^ b) := by
  have hlen : Function.update m j b 0 = m 0 := Function.update_of_ne (by omega) _ _
  rw [getCheck, hlen, foldl_check_update m b (m 0) hj, if_pos hle, ← getCheck]

theorem getCheck_update_ne (m : Mem) (b : UInt8) {j : Nat} (hj : 1 ≤ j) (hle : j ≤ (m 0).toNat)
    (hne : m j ≠ b) : getCheck (Function.update m j b) ≠ getCheck m := by
  rw [getCheck_update m b hj hle]
  intro heq
  have hzero : getCheck m ^^^ (m j ^^^ b) = getCheck m ^^^ 0 := by rw [heq, UInt8.xor_zero]
  exact hne (UInt8.xor_eq_zero_iff.mp ((UInt8.xor_right_inj _).mp hzero))

/-! ## One byte of a frame replaced -/

/-- What the check byte covers, in `sent_buf`. -/
def covered (frame : PortFrame) : Mem := fun i => (sentBuf frame).getD (i + 2) 0

/-- Another id or data byte makes `sent_buf` that of another frame. -/
theorem set_sentBuf (frame : PortFrame) (b : UInt8) {i : Nat} (h3 : 3 ≤ i)
    (hlt : i < (sentBuf frame).length) :
    ∃ frame', (sentBuf frame).set i b = sentBuf frame' ∧
      frame'.data.length = frame.data.length := by
  obtain ⟨id, data⟩ := frame
  obtain ⟨k, rfl⟩ : ∃ k, i = k + 3 := ⟨i - 3, by omega⟩
  rcases k with _ | k
  · exact ⟨⟨b, data⟩, rfl, rfl⟩
  · refine ⟨⟨id, data.set k b⟩, ?_, List.length_set⟩
    simp only [sentBuf, List.length_set]
    rfl

theorem covered_set {frame frame' : PortFrame} {b : UInt8} {j : Nat}
    (hlt : j + 2 < (sentBuf frame).length) (hset : (sentBuf frame).set (j + 2) b = sentBuf frame') :
    covered frame' = Function.update (covered frame) j b := by
  funext k
  unfold covered
  rw [← hset]
  by_cases hk : k = j
  · subst hk
    rw [Function.update_self, List.getD_eq_getElem?_getD, List.getElem?_set_self hlt,
      Option.getD_some]
  · rw [Function.update_of_ne hk, List.getD_eq_getElem?_getD, List.getD_eq_getElem?_getD,
      List.getElem?_set_ne (by omega)]

theorem length_sentBuf (frame : PortFrame) : (sentBuf frame).length = frame.data.length + 4 := by
  simp only [sentBuf, List.length_append, List.length_cons, List.length_nil]
  omega

/-- A frame with one byte replaced: a frame of the same length, with a wrong check byte. -/
theorem set_frameBytes (frame : PortFrame) (hbyte : frame.data.length ≤ 254) {i : Nat} {b : UInt8}
    (h3 : 3 ≤ i) (hi : i < (frameBytes frame).length) (hne : (frameBytes frame)[i] ≠ b) :
    ∃ frame' ch, (frameBytes frame).set i b = sentBuf frame' ++ [ch] ∧
      frame'.data.length = frame.data.length ∧ ch ≠ getCheck (covered frame') := by
  have hlen := length_sentBuf frame
  have hall := length_frameBytes frame
  rcases Nat.lt_or_ge i (sentBuf frame).length with hlt | hge
  · -- the id or a data byte
    obtain ⟨frame', hset, hlen'⟩ := set_sentBuf frame b h3 hlt
    refine ⟨frame', getCheck (covered frame), ?_, hlen', ?_⟩
    · rw [frameBytes, List.set_append_left _ _ hlt, hset]
      rfl
    · obtain ⟨j, rfl⟩ : ∃ j, i = j + 2 := ⟨i - 2, by omega⟩
      have hj : j ≤ (covered frame 0).toNat := by
        show j ≤ (UInt8.ofNat (4 + frame.data.length - 3)).toNat
        rw [toNat_length frame hbyte]
        omega
      have hold : covered frame j ≠ b := by
        simp only [frameBytes, List.getElem_append_left hlt] at hne
        rw [covered, List.getD_eq_getElem?_getD, List.getElem?_eq_getElem hlt, Option.getD_some]
        exact hne
      rw [covered_set hlt hset]
      exact (getCheck_update_ne (covered frame) b (by omega) hj hold).symm
  · -- the check byte itself
    obtain rfl : i = (sentBuf frame).length := by omega
    refine ⟨frame, b, ?_, rfl, ?_⟩
    · rw [frameBytes, List.set_append_right _ _ (Nat.le_refl _), Nat.sub_self]
      rfl
    · simp only [frameBytes, List.getElem_append_right (Nat.le_refl _), Nat.sub_self,
        List.getElem_cons_zero] at hne
      exact hne.symm

variable {n : Nat} {clear : Decoder → Option Decoder} {d : Decoder}

/-- The decoder between two frames rejects a wrong check byte and is between two frames again. -/
theorem feed_wrong_check (hc : Clears clear) (h : d.Ready) (frame : PortFrame)
    (hdata : frame.data ≠ []) (hlen : frame.data.length + 1 < n) (hbyte : frame.data.length ≤ 254)
    {ch : UInt8} (hch : ch ≠ getCheck (covered frame)) :
    ∃ d', (frameDecodeWith n clear).feed (sentBuf frame ++ [ch]) d = some (d', []) ∧ d'.Ready := by
  obtain ⟨d₁, hsent, hd₁⟩ := feed_sentBuf h frame hdata hlen hbyte
  obtain ⟨d₂, hstep, hd₂⟩ := step_frame hc hd₁ hlen hbyte ch
  have hwrong : ¬ ch = getCheck fun i => (sentBuf frame).getD (i + 2) 0 := hch
  rw [if_neg hwrong] at hstep
  refine ⟨d₂, ?_, hd₂⟩
  rw [Machine.feed_append hsent, Machine.feed_cons hstep]
  rfl

open NetInterface

/-- **A corrupted byte is caught.** From any `DAT_INIT` that a stream leads to, a frame of 1 to 25
    data bytes with its id, a data byte or the check byte replaced delivers nothing and leaves
    `NET_cmd` and the log alone; the next frame is delivered. -/
theorem corrupted_rejected {bs : List UInt8} {g : Globals} {fs : List PortFrame}
    (hfeed : Globals.receive.feed bs .start = some (g, fs)) (hs : g.decoder.receiveState = .init)
    (frame : PortFrame) (h1 : 1 ≤ frame.data.length) (h25 : frame.data.length ≤ 25) :
    ∃ bytes, SerialThread.serialSentFrame frame = some bytes ∧
      ∀ (i : Nat) (b : UInt8) (hi : i < bytes.length), 3 ≤ i → bytes[i] ≠ b →
        ∃ g', Globals.receive.feed (bytes.set i b) g = some (g', []) ∧
          g'.netCmd = g.netCmd ∧ g'.reports = g.reports ∧
          g'.decoder.receiveState = .init ∧ g'.decoder.dataCount = 0 ∧
          ∀ next : PortFrame, 1 ≤ next.data.length → next.data.length ≤ 25 →
            ∃ bytes' g'', SerialThread.serialSentFrame next = some bytes' ∧
              Globals.receive.feed bytes' g' = some (g'', [next]) := by
  have hreached : g.decoder.Reached 500 :=
    reached_feed (by decide) clears_clearBuf (.inl inside_start) (Globals.feed_decoder hfeed)
  have hready := ready_of_reached hreached hs
  refine ⟨frameBytes frame, serialSentFrame_eq frame h25, ?_⟩
  intro i b hi h3 hne
  obtain ⟨frame', ch, hset, hlen, hch⟩ := set_frameBytes frame (by omega) h3 hi hne
  obtain ⟨d', hd', hready'⟩ := feed_wrong_check (n := 500) clears_clearBuf hready frame'
    (List.ne_nil_of_length_pos (by omega)) (by omega) (by omega) hch
  rw [← hset] at hd'
  obtain ⟨g', hg', rfl⟩ := Globals.exists_feed_receive hd'
  obtain ⟨hcmd, hlog⟩ := Globals.feed_receive_nil hg'
  refine ⟨g', hg', hcmd, hlog, hready'.init, hready'.dataCount, ?_⟩
  intro next hn1 hn25
  obtain ⟨d'', hd'', -⟩ := feed_frameBytes (n := 500) clears_clearBuf hready' next
    (List.ne_nil_of_length_pos hn1) (by omega) (by omega)
  obtain ⟨g'', hg'', -⟩ := Globals.exists_feed_receive hd''
  exact ⟨frameBytes next, g'', serialSentFrame_eq next hn25, hg''⟩

/-- A report whose data are header bytes. -/
theorem corrupted_rejected_report :
    ∃ bytes, SerialThread.serialSentFrame ⟨2, [0x55, 0xAA]⟩ = some bytes ∧
      ∀ (i : Nat) (b : UInt8) (hi : i < bytes.length), 3 ≤ i → bytes[i] ≠ b →
        ∃ g', Globals.receive.feed (bytes.set i b) .start = some (g', []) ∧
          g'.netCmd = 255 ∧ g'.reports = [] ∧
          g'.decoder.receiveState = .init ∧ g'.decoder.dataCount = 0 ∧
          ∀ next : PortFrame, 1 ≤ next.data.length → next.data.length ≤ 25 →
            ∃ bytes' g'', SerialThread.serialSentFrame next = some bytes' ∧
              Globals.receive.feed bytes' g' = some (g'', [next]) :=
  have hstart : Globals.receive.feed [] .start = some (.start, []) := rfl
  corrupted_rejected hstart rfl ⟨2, [0x55, 0xAA]⟩ (by decide) (by decide)

end Adler.Serial
