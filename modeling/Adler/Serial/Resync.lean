/-
  Finding the next frame behind other bytes. In `DAT_HEADER` a second `HEADER_0` sends the decoder
  back to `DAT_INIT`, although it may be the first byte of a header itself.

  * `headerRun`: how many bytes `HEADER_0` end a string.
  * `feed_noise`: a string without a header leaves the decoder in `DAT_HEADER` when that number is
    odd, and in `DAT_INIT` otherwise.
  * `resync_iff`: a frame behind such a string is delivered exactly when the number is even.
-/
import Adler.Serial.RoundTrip
import Mathlib.Data.List.Chain

namespace Adler.Serial

open Lib (Mem Machine)
open Decoder

/-- No `HEADER_0` of the string is followed by `HEADER_1`. -/
def NoHeader (g : List UInt8) : Prop := g.IsChain fun a b => ¬ (a = header0 ∧ b = header1)

instance (g : List UInt8) : Decidable (NoHeader g) := inferInstanceAs (Decidable (List.IsChain _ g))

/-- The number of bytes `HEADER_0` at the end of the string. -/
def headerRun (g : List UInt8) : Nat := (g.reverse.takeWhile (· = header0)).length

@[simp] theorem headerRun_nil : headerRun [] = 0 := rfl

theorem headerRun_concat (g : List UInt8) (c : UInt8) :
    headerRun (g ++ [c]) = if c = header0 then headerRun g + 1 else 0 := by
  unfold headerRun
  rw [List.reverse_concat, List.takeWhile_cons]
  by_cases h : c = header0 <;> simp [h]

/-- A run that is not empty ends the string. -/
theorem getLast_of_headerRun {g : List UInt8} (h : headerRun g ≠ 0) : g.getLast? = some header0 := by
  induction g using List.reverseRecOn with
  | nil => exact absurd rfl h
  | append_singleton g c _ =>
    rw [headerRun_concat] at h
    split at h
    · rename_i hc
      rw [List.getLast?_concat, hc]
    · exact absurd rfl h

variable {n : Nat} {clear : Decoder → Option Decoder} {d : Decoder}

/-- `DAT_INIT` before the string, `DAT_HEADER` or `DAT_INIT` after it. -/
theorem feed_noise (g : List UInt8) (hg : NoHeader g) (hs : d.receiveState = .init) :
    (frameDecodeWith n clear).feed g d =
      some ({ d with receiveState := if headerRun g % 2 = 1 then .header else .init }, []) := by
  induction g using List.reverseRecOn with
  | nil =>
    simp only [headerRun_nil, Nat.zero_mod, Nat.zero_ne_one, if_false, ← hs]
    rfl
  | append_singleton g c ih =>
    obtain ⟨hfirst, -, hlast⟩ := List.isChain_append.mp hg
    rw [Machine.feed_append (ih hfirst), headerRun_concat]
    by_cases hrun : headerRun g % 2 = 1
    · -- the string so far ends with `HEADER_0`, so `HEADER_1` cannot follow
      have hne : c ≠ header1 := by
        intro hc
        refine hlast header0 ?_ c rfl ⟨rfl, hc⟩
        rw [getLast_of_headerRun (by omega)]
        rfl
      rw [if_pos hrun, Machine.feed_cons_nil (step_header rfl), Machine.feed_nil, if_neg hne]
      split
      · rw [if_neg (by omega)]
        rfl
      · rfl
    · rw [if_neg hrun, Machine.feed_cons_nil (step_init rfl), Machine.feed_nil]
      split
      · rw [if_pos (by omega)]
        rfl
      · rfl

/-- In `DAT_HEADER` the first header byte of a frame is lost, and the rest is too short for it. -/
theorem frame_lost (hn : 0 < n) (hc : Clears clear) (h : d.Ready) {frame : PortFrame}
    {fs : List PortFrame} {d' : Decoder}
    (hfeed : (frameDecodeWith n clear).feed (frameBytes frame) { d with receiveState := .header } =
      some (d', fs)) : frame ∉ fs := by
  obtain ⟨rest, hrest⟩ : ∃ rest, frameBytes frame = header0 :: rest := ⟨_, rfl⟩
  have hlen : rest.length = frame.data.length + 4 := by
    have hlen := length_frameBytes frame
    rw [hrest, List.length_cons] at hlen
    omega
  have hback : frameDecodeWith n clear header0 { d with receiveState := .header } =
      some (d, []) := by
    rw [step_header rfl, if_neg (by decide), ← h.init]
  have hreached : d.Reached n := by
    refine .inl ⟨h.zeroTail, ?_⟩
    simp only [Decoder.Place, h.init, h.dataCount]
  rw [hrest, Machine.feed_cons_nil hback] at hfeed
  intro hmem
  have hbytes := length_of_delivered hn hc hreached hfeed hmem
  have hprogress : d.progress = 0 := by simp only [progress, h.init]
  omega

/-- **Header resynchronisation.** Behind a string without a header, from any `DAT_INIT` that a stream
    leads to, `network_control` delivers a frame of 1 to 25 data bytes and nothing else exactly when
    the string does not end with an odd number of bytes `HEADER_0`. -/
theorem resync_iff {bs : List UInt8} {fs : List PortFrame}
    (hfeed : NetInterface.frameDecode.feed bs start = some (d, fs)) (hs : d.receiveState = .init)
    {g : List UInt8} (hg : NoHeader g) {frame : PortFrame} (h1 : 1 ≤ frame.data.length)
    (h25 : frame.data.length ≤ 25) :
    (∃ bytes d', SerialThread.serialSentFrame frame = some bytes ∧
        NetInterface.frameDecode.feed (g ++ bytes) d = some (d', [frame])) ↔
      headerRun g % 2 = 0 := by
  have hreached : d.Reached 500 := reached_feed (by decide) clears_clearBuf (.inl inside_start) hfeed
  have hready := ready_of_reached hreached hs
  have hnoise : NetInterface.frameDecode.feed g d =
      some ({ d with receiveState := if headerRun g % 2 = 1 then .header else .init }, []) :=
    feed_noise g hg hs
  rw [serialSentFrame_eq frame h25]
  constructor
  · rintro ⟨bytes, d', heq, hrun⟩
    cases heq
    rw [Machine.feed_append hnoise, Option.map_eq_some_iff] at hrun
    obtain ⟨⟨d₁, fs₁⟩, hframe, heq⟩ := hrun
    simp only [List.nil_append, Prod.mk.injEq] at heq
    obtain ⟨rfl, rfl⟩ := heq
    by_contra hodd
    rw [if_pos (by omega)] at hframe
    exact frame_lost (by decide) clears_clearBuf hready hframe (List.mem_singleton_self frame)
  · intro heven
    obtain ⟨d', hframe, -⟩ := feed_frameBytes (n := 500) clears_clearBuf hready frame
      (List.ne_nil_of_length_pos h1) (by omega) (by omega)
    refine ⟨_, d', rfl, ?_⟩
    rw [Machine.feed_append hnoise, if_neg (by omega), ← hs]
    show ((frameDecodeWith 500 NetInterface.clearBuf).feed (frameBytes frame) d).map _ = _
    rw [hframe]
    rfl

/-- A frame behind text, and one behind two bytes `HEADER_0`. -/
theorem resync_text :
    (∃ bytes d', SerialThread.serialSentFrame ⟨1, [7]⟩ = some bytes ∧
      NetInterface.frameDecode.feed ([0x6f, 0x6b, 0x0a] ++ bytes) start =
        some (d', [⟨1, [7]⟩])) ∧
    ∃ bytes d', SerialThread.serialSentFrame ⟨1, [7]⟩ = some bytes ∧
      NetInterface.frameDecode.feed ([0x55, 0x55] ++ bytes) start = some (d', [⟨1, [7]⟩]) := by
  have hstart : NetInterface.frameDecode.feed [] start = some (start, []) := rfl
  exact ⟨(resync_iff hstart rfl (by decide) (by decide) (by decide)).mpr (by decide),
    (resync_iff hstart rfl (by decide) (by decide) (by decide)).mpr (by decide)⟩

/-- Behind one byte `HEADER_0` the frame is lost. -/
theorem resync_lost :
    NoHeader [0x55] ∧ SerialThread.serialSentFrame ⟨1, [7]⟩ = some (frameBytes ⟨1, [7]⟩) ∧
      ∃ d', NetInterface.frameDecode.feed ([0x55] ++ frameBytes ⟨1, [7]⟩) start = some (d', []) :=
  ⟨by decide, rfl, _, rfl⟩

end Adler.Serial
