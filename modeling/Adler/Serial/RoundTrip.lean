/-
  Frames through the decoder: the encoder's length byte, id, data and check byte against the six
  states of `frame_decode`.

  * `feed_data`: the data state copies as many bytes as the length byte announces.
  * `feed_frameBytes`: from `DAT_INIT` the bytes of a frame deliver it and lead back to `DAT_INIT`.
  * `serial_round_trip`: a stream of frames of the gateway is delivered by `network_control`, frame
    by frame.
-/
import Adler.Serial.Decode

namespace Adler.Serial

open Lib (Mem Machine)
open Decoder

variable {n : Nat} {clear : Decoder → Option Decoder} {d : Decoder}

theorem getCheck_congr {m m' : Mem} (h : ∀ i, i ≤ (m 0).toNat → m i = m' i) :
    getCheck m = getCheck m' := by
  have h0 : m' 0 = m 0 := (h 0 (Nat.zero_le _)).symm
  unfold getCheck
  rw [h0]
  apply List.foldl_ext
  intro ret i hi
  rw [h (i + 1) (List.mem_range.mp hi)]

/-- The data state over the data bytes of a frame. -/
theorem feed_data (hn : d.frameLen.toNat < n) (ds : List UInt8) (hs : d.receiveState = .data)
    (hne : ds ≠ []) (hlen : d.dataCount + ds.length = d.frameLen.toNat + 1) :
    (frameDecodeWith n clear).feed ds d = some ({ d with
      dataBuf := d.dataBuf.copy d.dataCount ds
      dataCount := 0
      receiveState := .check }, []) := by
  induction ds generalizing d with
  | nil => exact absurd rfl hne
  | cons c cs ih =>
    rw [List.length_cons] at hlen
    rcases cs with _ | ⟨c', cs⟩
    · rw [Machine.feed_cons_nil (step_last hs (by omega) (by simpa using hlen)), Mem.copy_cons,
        Mem.copy_nil]
      rfl
    · rw [List.length_cons] at hlen
      have hrest : d.dataCount + 1 + (c' :: cs).length = d.frameLen.toNat + 1 := by
        rw [List.length_cons]
        omega
      rw [Machine.feed_cons_nil (step_data hs (by omega) (by omega)),
        ih (d := { d with
          dataBuf := Function.update d.dataBuf d.dataCount c
          dataCount := d.dataCount + 1 }) hn hs (List.cons_ne_nil _ _) hrest,
        Mem.copy_cons d.dataBuf d.dataCount c]

/-- `DAT_INIT` between two frames. -/
structure Decoder.Ready (d : Decoder) : Prop where
  init : d.receiveState = .init
  dataCount : d.dataCount = 0
  zeroTail : d.ZeroTail

theorem ready_start : start.Ready := ⟨rfl, rfl, fun _ _ => rfl⟩

/-- The decoder has everything of the frame but the check byte. -/
structure Decoder.Received (frame : PortFrame) (d : Decoder) : Prop where
  check : d.receiveState = .check
  dataCount : d.dataCount = 0
  zeroTail : d.ZeroTail
  dataBuf : ∀ i, i < frame.data.length + 2 → d.dataBuf i = (sentBuf frame).getD (i + 2) 0
  frameId : d.frameId = frame.frameId
  dataLen : d.dataLen.toNat = frame.data.length

/-- What the encoder puts behind the header. -/
theorem getD_sentBuf (frame : PortFrame) (i : Nat) : (sentBuf frame).getD (i + 2) 0 =
    (UInt8.ofNat (4 + frame.data.length - 3) :: frame.frameId :: frame.data).getD i 0 := rfl

theorem zeroTail_copy {off : Nat} {ds : List UInt8} (h : d.ZeroTail) (hle : off + ds.length ≤ 256) :
    ∀ i, 256 ≤ i → d.dataBuf.copy off ds i = 0 := by
  intro i hi
  rw [Mem.copy_of_not_mem _ _ _ (.inr (by omega))]
  exact h i hi

/-- The decoder after the header, the length byte and the id. -/
def Decoder.opened (len id : UInt8) (d : Decoder) : Decoder where
  receiveState := .data
  dataCount := d.dataCount + 2
  dataBuf := d.dataBuf.copy d.dataCount [len, id]
  frameLen := len
  dataLen := len - 1
  frameId := id

theorem feed_opening (hs : d.receiveState = .init) (hn : d.dataCount + 1 < n) (len id : UInt8) :
    (frameDecodeWith n clear).feed [header0, header1, len, id] d = some (d.opened len id, []) := by
  have h0 : frameDecodeWith n clear header0 d = some ({ d with receiveState := .header }, []) := by
    rw [step_init hs, if_pos rfl]
  have h1 : frameDecodeWith n clear header1 { d with receiveState := .header } =
      some ({ d with receiveState := .len }, []) := by
    rw [step_header rfl, if_pos rfl]
  have h2 : frameDecodeWith n clear len { d with receiveState := .len } = some ({ d with
      dataBuf := Function.update d.dataBuf d.dataCount len
      dataCount := d.dataCount + 1
      frameLen := len
      dataLen := len - 1
      receiveState := .id }, []) := step_len rfl (Nat.lt_of_succ_lt hn)
  rw [Machine.feed_cons_nil h0, Machine.feed_cons_nil h1, Machine.feed_cons_nil h2,
    Machine.feed_cons_nil (step_id rfl hn), Machine.feed_nil, opened, Mem.copy_cons, Mem.copy_cons,
    Mem.copy_nil]

theorem toNat_length (frame : PortFrame) (hbyte : frame.data.length ≤ 254) :
    (UInt8.ofNat (4 + frame.data.length - 3)).toNat = frame.data.length + 1 := by
  rw [UInt8.toNat_ofNat']
  omega

/-- From `DAT_INIT`, everything of a frame but the check byte. -/
theorem feed_sentBuf (h : d.Ready) (frame : PortFrame) (hdata : frame.data ≠ [])
    (hlen : frame.data.length + 1 < n) (hbyte : frame.data.length ≤ 254) :
    ∃ d', (frameDecodeWith n clear).feed (sentBuf frame) d = some (d', []) ∧ d'.Received frame := by
  obtain ⟨hinit, hcount, hzero⟩ := h
  have hpos : 0 < frame.data.length := List.length_pos_of_ne_nil hdata
  have hbytes := toNat_length frame hbyte
  have hopen : (frameDecodeWith n clear).feed
      [header0, header1, .ofNat (4 + frame.data.length - 3), frame.frameId] d =
        some (d.opened (.ofNat (4 + frame.data.length - 3)) frame.frameId, []) :=
    feed_opening hinit (by omega) _ _
  have hlt : (UInt8.ofNat (4 + frame.data.length - 3)).toNat < n := by omega
  have hall : d.dataCount + 2 + frame.data.length =
      (UInt8.ofNat (4 + frame.data.length - 3)).toNat + 1 := by omega
  have hbuf : (d.dataBuf.copy d.dataCount [.ofNat (4 + frame.data.length - 3), frame.frameId]).copy
      (d.dataCount + 2) frame.data =
        d.dataBuf.copy 0 (.ofNat (4 + frame.data.length - 3) :: frame.frameId :: frame.data) := by
    rw [Mem.copy_cons, Mem.copy_cons, Mem.copy_cons, Mem.copy_cons, Mem.copy_nil, hcount]
  refine ⟨{ d.opened (.ofNat (4 + frame.data.length - 3)) frame.frameId with
      dataBuf := d.dataBuf.copy 0 (.ofNat (4 + frame.data.length - 3) :: frame.frameId :: frame.data)
      dataCount := 0
      receiveState := .check }, ?_, rfl, rfl, ?_, ?_, rfl, ?_⟩
  · rw [sentBuf, Machine.feed_append hopen, feed_data
      (d := d.opened (.ofNat (4 + frame.data.length - 3)) frame.frameId) hlt frame.data rfl hdata
      hall, ← hbuf]
    rfl
  · exact zeroTail_copy hzero (by simp only [List.length_cons]; omega)
  · intro i hi
    rw [getD_sentBuf]
    exact Mem.copy_of_mem _ _ _ (Nat.zero_le i) (by simp only [List.length_cons]; omega)
  · show (UInt8.ofNat (4 + frame.data.length - 3) - 1).toNat = frame.data.length
    rw [UInt8.toNat_sub_of_le _ _ (by rw [UInt8.le_iff_toNat_le]; show 1 ≤ _; omega)]
    show (UInt8.ofNat (4 + frame.data.length - 3)).toNat - 1 = frame.data.length
    omega

/-- The check byte. -/
theorem step_frame (hc : Clears clear) {frame : PortFrame} (h : d.Received frame)
    (hlen : frame.data.length + 1 < n) (hbyte : frame.data.length ≤ 254) (ch : UInt8) :
    ∃ d', frameDecodeWith n clear ch d = some (d',
      if ch = getCheck fun i => (sentBuf frame).getD (i + 2) 0 then [frame] else []) ∧
      d'.Ready := by
  have hbytes := toNat_length frame hbyte
  have hfirst : d.dataBuf 0 = .ofNat (4 + frame.data.length - 3) := h.dataBuf 0 (by omega)
  have hcheck : getCheck d.dataBuf = getCheck fun i => (sentBuf frame).getD (i + 2) 0 := by
    apply getCheck_congr
    intro i hi
    rw [hfirst, hbytes] at hi
    exact h.dataBuf i (by omega)
  have hframe : d.frame = frame := by
    have hread : Mem.read d.dataBuf 2 frame.data.length = frame.data := by
      have := Mem.read_copy_self d.dataBuf 2 frame.data
      rw [← this]
      simp only [Mem.length_read]
      apply Mem.read_congr
      intro i hi
      rw [h.dataBuf (2 + i) (by omega), Mem.copy_of_mem _ _ _ (by omega) (by omega), getD_sentBuf,
        Nat.add_sub_cancel_left, Nat.add_comm 2 i]
      rfl
    unfold Decoder.frame
    rw [h.frameId, h.dataLen, hread]
  obtain ⟨buf, hclear, hbuf⟩ := hc d h.zeroTail
  have hlt : (d.dataBuf 0).toNat < n := by
    rw [hfirst, hbytes]
    exact hlen
  refine ⟨{ d with dataBuf := buf, receiveState := .init }, ?_, rfl, h.dataCount, hbuf⟩
  rw [step_check h.check hlt hclear, hcheck, hframe]

/-- The bytes of a frame, from `DAT_INIT` to `DAT_INIT`. -/
theorem feed_frameBytes (hc : Clears clear) (h : d.Ready) (frame : PortFrame)
    (hdata : frame.data ≠ []) (hlen : frame.data.length + 1 < n) (hbyte : frame.data.length ≤ 254) :
    ∃ d', (frameDecodeWith n clear).feed (frameBytes frame) d = some (d', [frame]) ∧ d'.Ready := by
  obtain ⟨d₁, hsent, hd₁⟩ := feed_sentBuf h frame hdata hlen hbyte
  obtain ⟨d₂, hcheck, hd₂⟩ := step_frame hc hd₁ hlen hbyte
    (getCheck fun i => (sentBuf frame).getD (i + 2) 0)
  rw [if_pos rfl] at hcheck
  refine ⟨d₂, ?_, hd₂⟩
  rw [frameBytes, Machine.feed_append hsent, Machine.feed_cons hcheck]
  rfl

/-- A stream of frames. -/
theorem feed_frames (hc : Clears clear) (frames : List PortFrame) (h : d.Ready)
    (hframes : ∀ frame ∈ frames, frame.data ≠ [] ∧ frame.data.length + 1 < n ∧
      frame.data.length ≤ 254) :
    ∃ d', (frameDecodeWith n clear).feed (frames.flatMap frameBytes) d = some (d', frames) ∧
      d'.Ready := by
  induction frames generalizing d with
  | nil => exact ⟨d, rfl, h⟩
  | cons frame frames ih =>
    obtain ⟨hdata, hlen, hbyte⟩ := hframes frame List.mem_cons_self
    obtain ⟨d₁, hfeed, hd₁⟩ := feed_frameBytes hc h frame hdata hlen hbyte
    obtain ⟨d₂, hrest, hd₂⟩ := ih hd₁ fun g hg => hframes g (List.mem_cons_of_mem _ hg)
    refine ⟨d₂, ?_, hd₂⟩
    rw [List.flatMap_cons, Machine.feed_append hfeed, hrest]
    rfl

theorem length_frameBytes (frame : PortFrame) :
    (frameBytes frame).length = frame.data.length + 5 := by
  simp only [frameBytes, sentBuf, List.length_append, List.length_cons, List.length_nil]
  omega

theorem serialSentFrame_eq (frame : PortFrame) (h : frame.data.length ≤ 25) :
    SerialThread.serialSentFrame frame = some (frameBytes frame) := by
  refine if_pos ?_
  rw [length_frameBytes]
  show _ ≤ 30
  omega

/-- Every `DAT_INIT` a decoder gets to is between two frames. -/
theorem ready_of_reached (h : d.Reached n) (hs : d.receiveState = .init) : d.Ready := by
  rcases h with hin | hrun
  · have hp := hin.place
    simp only [Place, hs] at hp
    exact ⟨hs, hp, hin.zeroTail⟩
  · exact absurd hs (runaway_not_init hrun)

/-- What the gateway sends, `network_control` decodes: any frames of 1 to 25 data bytes, from any
    `DAT_INIT` that a stream leads to. -/
theorem serial_round_trip {bs : List UInt8} {fs : List PortFrame}
    (hfeed : NetInterface.frameDecode.feed bs start = some (d, fs)) (hs : d.receiveState = .init)
    (frames : List PortFrame)
    (hframes : ∀ frame ∈ frames, 1 ≤ frame.data.length ∧ frame.data.length ≤ 25) :
    ∃ bytes d', frames.mapM SerialThread.serialSentFrame = some bytes ∧
      NetInterface.frameDecode.feed bytes.flatten d = some (d', frames) ∧
      d'.receiveState = .init ∧ d'.dataCount = 0 := by
  have hreached : d.Reached 500 := reached_feed (by decide) clears_clearBuf (.inl inside_start) hfeed
  have hready := ready_of_reached hreached hs
  obtain ⟨d', hd', hr⟩ := feed_frames (n := 500) clears_clearBuf frames hready (by
    intro frame hmem
    obtain ⟨h1, h25⟩ := hframes frame hmem
    exact ⟨List.ne_nil_of_length_pos h1, by omega, by omega⟩)
  have hbytes : frames.mapM SerialThread.serialSentFrame = some (frames.map frameBytes) := by
    clear hd'
    induction frames with
    | nil => rfl
    | cons frame frames ih =>
      rw [List.mapM_cons, serialSentFrame_eq frame (hframes frame List.mem_cons_self).2,
        ih fun g hg => hframes g (List.mem_cons_of_mem _ hg)]
      rfl
  exact ⟨_, d', hbytes, hd', hr.init, hr.dataCount⟩

/-- Two frames, one of them with header bytes in its data. -/
theorem serial_round_trip_two :
    ∃ bytes d', [PortFrame.mk 1 [0x55, 0xAA, 0], PortFrame.mk 2 [7]].mapM
        SerialThread.serialSentFrame = some bytes ∧
      NetInterface.frameDecode.feed bytes.flatten start =
        some (d', [PortFrame.mk 1 [0x55, 0xAA, 0], PortFrame.mk 2 [7]]) ∧
      d'.receiveState = .init ∧ d'.dataCount = 0 :=
  have hstart : NetInterface.frameDecode.feed [] start = some (start, []) := rfl
  serial_round_trip hstart rfl _ (by decide)

end Adler.Serial
