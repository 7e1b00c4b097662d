/-
  Which frames of `network_control` the gateway's decoder delivers. Between the two stands a driver
  for lines of text: it drops `0x0d`, ends a line at `0x0a` and hands it over as a string, and the
  decoder keeps its state from line to line.

  * `Assembled`: what the driver has done with the bytes that came in, at any time.
  * `port_sent_frame_delivered_iff`: a frame arrives exactly when none of its bytes is `0x00`, `0x0a`
    or `0x0d`, whatever the order of the steps.
  * `line_delivered_iff`: the frame of a line is delivered exactly when the lines before left the
    decoder in `DAT_INIT`.
-/
import Adler.Serial.Line
import Adler.Lib.Run
import Mathlib.Data.List.Flatten

namespace Adler.Serial

open Lib (Mem Machine runList)
open Decoder

variable {g g₀ : Gateway} {bs cur : List UInt8} {lines : List (List UInt8)}

/-! ## The driver over a run -/

/-- The bytes `bs` that came in since `g₀` without their `0x0d`: the lines that were handled, the
    line in `buf` and the bytes in the ring. -/
structure Assembled (g₀ : Gateway) (bs : List UInt8) (lines : List (List UInt8)) (cur : List UInt8)
    (g : Gateway) : Prop where
  bytes : bs.filter (· ≠ 0x0d) = lines.flatMap (· ++ [lineEnd]) ++ cur ++
    (if g.line.waiting then [lineEnd] else []) ++ g.line.rxbuf.contents
  lines_noEnd : ∀ l ∈ lines, lineEnd ∉ l
  cur_noEnd : lineEnd ∉ cur
  rxbuf : g.line.rxbuf.Ok
  overflow : g.line.overflow = false
  buf : g.line.buf.read 0 cur.length = cur
  ptr : g.line.ptr = cur.length + if g.line.waiting then 1 else 0
  nul : g.line.waiting = true → g.line.buf cur.length = 0
  decoded : ∃ fs, SerialThread.frameDecode.feed (lines.flatMap cut) g₀.decoder =
    some (g.decoder, fs) ∧ g.delivered = g₀.delivered ++ fs

/-- Nothing in the buffers, the decoder in `DAT_INIT`. -/
structure Gateway.Empty (g : Gateway) : Prop where
  rxbuf : g.line.rxbuf.Ok
  contents : g.line.rxbuf.contents = []
  overflow : g.line.overflow = false
  ptr : g.line.ptr = 0
  waiting : g.line.waiting = false
  decoder : g.decoder.Ready

theorem empty_init : Gateway.init.Empty :=
  ⟨Ringbuf.ok_init _, Ringbuf.contents_init _, rfl, rfl, rfl, ready_start⟩

theorem assembled_empty (h : g.Empty) : Assembled g [] [] [] g where
  bytes := by simp [h.waiting, h.contents]
  lines_noEnd := by simp
  cur_noEnd := List.not_mem_nil
  rxbuf := h.rxbuf
  overflow := h.overflow
  buf := rfl
  ptr := by simp [h.ptr, h.waiting]
  nul := by simp [h.waiting]
  decoded := ⟨[], rfl, (List.append_nil _).symm⟩

theorem Assembled.length_le (h : Assembled g₀ bs lines cur g) :
    (lines.flatMap (· ++ [lineEnd])).length + cur.length + g.line.rxbuf.contents.length ≤ bs.length := by
  have hle : (bs.filter (· ≠ 0x0d)).length ≤ bs.length := List.length_filter_le _ _
  rw [h.bytes, List.length_append, List.length_append, List.length_append] at hle
  omega

/-- A byte comes in. -/
theorem assembled_byte (h : Assembled g₀ bs lines cur g) (hlen : bs.length < 30) (c : UInt8) :
    Assembled g₀ (bs ++ [c]) lines cur { g with line := g.line.inputByte c } := by
  have hle := h.length_le
  by_cases hc : c = 0x0d
  · have hsame : g.line.inputByte c = g.line := if_pos (decide_eq_true hc)
    rw [hsame]
    refine { h with bytes := ?_ }
    rw [List.filter_append, h.bytes, hc]
    simp
  · obtain ⟨r, hput, hok, hcontents⟩ := Ringbuf.contents_put h.rxbuf (by omega) c
    have hnew : g.line.inputByte c = { g.line with rxbuf := r } := by
      have hig : ¬ ignoreChar c = true := by simpa [ignoreChar] using hc
      rw [SerialLine.inputByte, if_neg hig, h.overflow]
      simp only [Bool.not_false, if_true, hput]
      rw [h.overflow]
    rw [hnew]
    refine { h with bytes := ?_, rxbuf := hok }
    rw [List.filter_append, h.bytes, hcontents, List.filter_cons_of_pos (by simpa using hc),
      List.filter_nil, List.append_assoc]

/-- The driver takes a round. -/
theorem assembled_round (h : Assembled g₀ bs lines cur g) (hlen : bs.length ≤ 30) :
    ∃ s cur', g.line.processRound = some s ∧
      Assembled g₀ bs lines cur' { g with line := s } ∧
      (g.line.waiting = false → s.rxbuf.contents = g.line.rxbuf.contents.tail) := by
  have hle := h.length_le
  have hptr := h.ptr
  by_cases hw : g.line.waiting = true
  · exact ⟨g.line, cur, if_pos hw, h, fun hf => absurd hw (by simp [hf])⟩
  simp only [hw, Bool.false_eq_true, if_false, Nat.add_zero] at hptr
  match hcs : g.line.rxbuf.contents with
  | [] =>
    refine ⟨g.line, cur, ?_, h, fun _ => hcs⟩
    rw [SerialLine.processRound, if_neg hw, Ringbuf.get_none hcs]
  | c :: cs =>
    obtain ⟨r, hget, hok, hrest⟩ := Ringbuf.contents_get h.rxbuf hcs
    rw [hcs, List.length_cons] at hle
    have hbytes := h.bytes
    rw [hcs] at hbytes
    simp only [hw, Bool.false_eq_true, if_false, List.append_nil] at hbytes
    by_cases hc : c = lineEnd
    · refine ⟨{ g.line with
          rxbuf := r
          buf := Function.update g.line.buf g.line.ptr 0
          ptr := g.line.ptr + 1
          waiting := true }, cur, ?_, ?_, fun _ => hrest⟩
      · have hin : g.line.ptr < bufsize := by
          show g.line.ptr < 128
          omega
        rw [SerialLine.processRound, if_neg hw, hget]
        simp only [hc, ne_eq, not_true, if_false, if_pos hin]
      · refine ⟨?_, h.lines_noEnd, h.cur_noEnd, hok, h.overflow, ?_, ?_, ?_, h.decoded⟩
        · rw [hbytes, hrest, hc]
          simp
        · rw [Mem.read_update _ _ _ _ (by omega), h.buf]
        · simp [hptr]
        · intro _
          rw [← hptr]
          exact Function.update_self _ _ _
    · refine ⟨{ g.line with
          rxbuf := r
          buf := Function.update g.line.buf g.line.ptr c
          ptr := g.line.ptr + 1 }, cur ++ [c], ?_, ?_, fun _ => hrest⟩
      · have hin : g.line.ptr < bufsize - 1 := by
          show g.line.ptr < 127
          omega
        rw [SerialLine.processRound, if_neg hw, hget]
        simp only [hc, ne_eq, not_false_eq_true, if_true, if_pos hin]
      · refine ⟨?_, h.lines_noEnd, ?_, hok, h.overflow, ?_, ?_, ?_, h.decoded⟩
        · rw [hbytes, hrest]
          simp [hw]
        · intro hmem
          rcases List.mem_append.mp hmem with hmem | hmem
          · exact h.cur_noEnd hmem
          · exact hc (List.mem_singleton.mp hmem).symm
        · show Mem.read (Function.update _ _ _) 0 (cur ++ [c]).length = _
          rw [List.length_append, List.length_singleton, Mem.read_succ,
            Mem.read_update _ _ _ _ (by omega), h.buf, Nat.zero_add, ← hptr, Function.update_self]
        · simp [hptr, hw]
        · intro hw'
          exact absurd hw' hw

theorem Decoder.Ready.inside {n : Nat} {d : Decoder} (h : d.Ready) : d.Inside n := by
  refine ⟨h.zeroTail, ?_⟩
  simp only [Place, h.init]
  exact h.dataCount

theorem length_flatMap_cut_le (lines : List (List UInt8)) :
    (lines.flatMap cut).length ≤ (lines.flatMap (· ++ [lineEnd])).length := by
  induction lines with
  | nil => exact Nat.le_refl _
  | cons l lines ih =>
    have hcut := length_cut_le l
    simp only [List.flatMap_cons, List.length_append, List.length_cons, List.length_nil]
    omega

/-- At most 30 bytes are decoded inside the gateway's `data_buf`. -/
theorem frameDecode_of_le {d : Decoder} (h : d.Ready) {s : List UInt8} (hlen : s.length ≤ 30) :
    ∃ d' fs, SerialThread.frameDecode.feed s d = some (d', fs) := by
  obtain ⟨d', fs, hfeed, -⟩ := feed_of_room (n := 30) (by decide) clears_some s (.inl h.inside)
    (by rw [h.dataCount]; omega)
  exact ⟨d', fs, hfeed⟩

/-- The processes handle the line. -/
theorem assembled_event (h₀ : g₀.decoder.Ready) (h : Assembled g₀ bs lines cur g)
    (hlen : bs.length ≤ 30) (hw : g.line.waiting = true) :
    ∃ g', g.step .event = some g' ∧ Assembled g₀ bs (lines ++ [cur]) [] g' ∧
      g'.line = g.line.resume := by
  have hle := h.length_le
  have hcut := length_cut_le cur
  have hcuts := length_flatMap_cut_le lines
  have hread : g.line.buf.read 0 bufsize =
      cur ++ 0 :: g.line.buf.read (cur.length + 1) (127 - cur.length) := by
    have hsplit : bufsize = cur.length + 1 + (127 - cur.length) := by
      show 128 = _
      omega
    rw [hsplit, Mem.read_add, Mem.read_succ, h.buf, Nat.zero_add, Nat.zero_add, h.nul hw]
    simp
  obtain ⟨fs, hfeed, hdel⟩ := h.decoded
  obtain ⟨d', fs', hall⟩ := frameDecode_of_le (s := lines.flatMap cut ++ cut cur) h₀ (by
    rw [List.length_append]
    omega)
  obtain ⟨t, out₁, out₂, hfeed', hcur, rfl⟩ := Machine.exists_of_feed_append hall
  rw [hfeed] at hfeed'
  cases hfeed'
  refine ⟨{ line := g.line.resume, decoder := d', delivered := g.delivered ++ out₂ }, ?_, ?_, rfl⟩
  · rw [Gateway.step, if_pos hw, hread, ez240UartProcess_eq, hcur]
    rfl
  · refine ⟨?_, ?_, List.not_mem_nil, h.rxbuf, h.overflow, rfl, rfl, ?_, fs ++ out₂, ?_, ?_⟩
    · rw [h.bytes, if_pos hw, List.flatMap_append]
      simp [SerialLine.resume]
    · intro l hl
      rcases List.mem_append.mp hl with hl | hl
      · exact h.lines_noEnd l hl
      · rw [List.mem_singleton.mp hl]
        exact h.cur_noEnd
    · intro hf
      cases hf
    · rw [List.flatMap_append, List.flatMap_singleton]
      exact hall
    · rw [hdel, List.append_assoc]

/-! ## A run of the driver -/

theorem received_append (as bs : List LineStep) :
    received (as ++ bs) = received as ++ received bs := List.filterMap_append

/-- Any order of steps in which at most 30 bytes come in. -/
theorem assembled_run (h₀ : g₀.decoder.Ready) (steps : List LineStep)
    (h : Assembled g₀ bs lines cur g) (hlen : (bs ++ received steps).length ≤ 30) :
    ∃ g' lines' cur', runList Gateway.step steps g = some g' ∧
      Assembled g₀ (bs ++ received steps) lines' cur' g' := by
  induction steps generalizing bs lines cur g with
  | nil =>
    refine ⟨g, lines, cur, rfl, ?_⟩
    rw [received, List.filterMap_nil, List.append_nil]
    exact h
  | cons a steps ih =>
    have hsplit : bs ++ received (a :: steps) = bs ++ received [a] ++ received steps := by
      rw [List.append_assoc, ← received_append]
      rfl
    rw [hsplit] at hlen ⊢
    have hone : (bs ++ received [a]).length ≤ 30 := by
      rw [List.length_append] at hlen
      omega
    obtain ⟨t, lines₁, cur₁, hstep, ht⟩ : ∃ t lines₁ cur₁, g.step a = some t ∧
        Assembled g₀ (bs ++ received [a]) lines₁ cur₁ t := by
      match a with
      | .byte c =>
        rw [List.length_append] at hone
        exact ⟨_, lines, cur, rfl, assembled_byte h (Nat.lt_of_succ_le hone) c⟩
      | .round =>
        have hbs : bs ++ received [.round] = bs := List.append_nil bs
        rw [hbs] at hone ⊢
        obtain ⟨s, cur', hs, hs', -⟩ := assembled_round h hone
        exact ⟨_, lines, cur', by rw [Gateway.step, hs]; rfl, hs'⟩
      | .event =>
        have hbs : bs ++ received [.event] = bs := List.append_nil bs
        rw [hbs] at hone ⊢
        by_cases hw : g.line.waiting = true
        · obtain ⟨g', hg', hg'', -⟩ := assembled_event h₀ h hone hw
          exact ⟨g', _, _, hg', hg''⟩
        · exact ⟨g, lines, cur, by rw [Gateway.step, if_neg hw], h⟩
    obtain ⟨g', lines', cur', hrest, hg'⟩ := ih ht hlen
    refine ⟨g', lines', cur', ?_, hg'⟩
    rw [runList, hstep]
    exact hrest

/-- The steps the driver has left to do. -/
def Gateway.pending (g : Gateway) : Nat :=
  2 * g.line.rxbuf.contents.length + if g.line.waiting then 1 else 0

/-- Rounds and events empty the buffers. -/
theorem idle_run (h₀ : g₀.decoder.Ready) (k : Nat) (h : Assembled g₀ bs lines cur g)
    (hlen : bs.length ≤ 30) (hk : g.pending ≤ k) :
    ∃ rest g', received rest = [] ∧ runList Gateway.step rest g = some g' ∧ g'.Idle := by
  induction k generalizing lines cur g with
  | zero =>
    have hz : g.pending = 0 := Nat.le_zero.mp hk
    unfold Gateway.pending at hz
    have hw : g.line.waiting = false := by
      by_contra hw
      simp [hw] at hz
    have hc : g.line.rxbuf.contents = [] := by
      apply List.eq_nil_of_length_eq_zero
      omega
    exact ⟨[], g, rfl, rfl, hc, hw⟩
  | succ k ih =>
    unfold Gateway.pending at hk
    by_cases hw : g.line.waiting = true
    · obtain ⟨g₁, hstep, h₁, hline⟩ := assembled_event h₀ h hlen hw
      have hk₁ : g₁.pending ≤ k := by
        rw [if_pos hw] at hk
        rw [Gateway.pending, hline]
        show 2 * g.line.rxbuf.contents.length + 0 ≤ k
        omega
      obtain ⟨rest, g', hrec, hrun, hidle⟩ := ih h₁ hk₁
      refine ⟨.event :: rest, g', hrec, ?_, hidle⟩
      rw [runList, hstep]
      exact hrun
    · by_cases hc : g.line.rxbuf.contents = []
      · exact ⟨[], g, rfl, rfl, hc, Bool.eq_false_iff.mpr hw⟩
      · obtain ⟨s, cur', hround, h₁, htail⟩ := assembled_round h hlen
        have hk₁ : Gateway.pending { g with line := s } ≤ k := by
          have hpos := List.length_pos_of_ne_nil hc
          rw [if_neg hw] at hk
          rw [Gateway.pending]
          show 2 * s.rxbuf.contents.length + _ ≤ k
          rw [htail (Bool.eq_false_iff.mpr hw), List.length_tail]
          split <;> omega
        obtain ⟨rest, g', hrec, hrun, hidle⟩ := ih h₁ hk₁
        refine ⟨.round :: rest, g', hrec, ?_, hidle⟩
        rw [runList, Gateway.step, hround]
        exact hrun

/-! ## One frame -/

/-- None of the bytes of the frame is dropped, ends a line or ends a string. -/
def Clean (frame : PortFrame) : Prop :=
  ∀ c ∈ frameBytes frame, c ≠ 0x00 ∧ c ≠ lineEnd ∧ c ≠ 0x0d

instance (frame : PortFrame) : Decidable (Clean frame) := List.decidableBAll _ _

/-- A byte that gets to the decoder. -/
def passes (c : UInt8) : Bool := c ≠ 0x00 ∧ c ≠ lineEnd ∧ c ≠ 0x0d

/-- All that gets to the decoder are bytes that pass. -/
theorem fed_sublist (h : Assembled g₀ bs lines cur g) :
    (lines.flatMap cut).Sublist (bs.filter passes) := by
  have hpass : ∀ c ∈ lines.flatMap cut, passes c = true := by
    intro c hc
    obtain ⟨l, hl, hcl⟩ := List.mem_flatMap.mp hc
    have hne : c ≠ 0 := by simpa using List.mem_takeWhile_imp hcl
    have hmem : c ∈ l := (List.takeWhile_sublist _).subset hcl
    have hend : c ≠ lineEnd := fun heq => h.lines_noEnd l hl (heq ▸ hmem)
    have hbs : c ∈ bs.filter (· ≠ 0x0d) := by
      rw [h.bytes]
      have : c ∈ lines.flatMap (· ++ [lineEnd]) :=
        List.mem_flatMap.mpr ⟨l, hl, List.mem_append_left _ hmem⟩
      simp [this]
    have hcr : c ≠ 0x0d := of_decide_eq_true (List.mem_filter.mp hbs).2
    exact decide_eq_true ⟨hne, hend, hcr⟩
  have hcuts : (lines.flatMap cut).Sublist (lines.flatMap (· ++ [lineEnd])) := by
    apply List.Sublist.flatMap_right
    intro l _
    exact (List.takeWhile_sublist _).trans (List.sublist_append_left _ _)
  have hbs : (lines.flatMap cut).Sublist bs := by
    refine (hcuts.trans ?_).trans (List.filter_sublist (p := (· ≠ 0x0d)))
    rw [h.bytes, List.append_assoc, List.append_assoc]
    exact List.sublist_append_left _ _
  rw [← List.filter_eq_self.mpr hpass]
  exact hbs.filter passes

/-- A frame that does not get through whole is not delivered. -/
theorem clean_of_delivered (h₀ : g₀.decoder.Ready) {frame : PortFrame}
    (h : Assembled g₀ (frameBytes frame ++ [lineEnd]) lines cur g)
    (hdel : g.delivered = g₀.delivered ++ [frame]) : Clean frame := by
  obtain ⟨fs, hfeed, hfs⟩ := h.decoded
  rw [hdel] at hfs
  have hmem : frame ∈ fs := by
    rw [← List.append_cancel_left hfs]
    exact List.mem_singleton_self frame
  have hlen := length_of_delivered (n := 30) (by decide) clears_some (.inl h₀.inside) hfeed hmem
  have hsub := (fed_sublist h).length_le
  rw [List.filter_append, List.filter_cons_of_neg (by decide), List.filter_nil, List.append_nil]
    at hsub
  have hzero : g₀.decoder.progress = 0 := by rw [progress, h₀.init]
  have hfull := length_frameBytes frame
  have hle := List.length_filter_le passes (frameBytes frame)
  have hall : ((frameBytes frame).filter passes).length = (frameBytes frame).length := by omega
  intro c hc
  exact of_decide_eq_true (List.length_filter_eq_length_iff.mp hall c hc)

/-- A frame that gets through whole is delivered. -/
theorem delivered_of_clean (h₀ : g₀.decoder.Ready) {frame : PortFrame} (hdata : frame.data ≠ [])
    (hlen : frame.data.length ≤ 24)
    (h : Assembled g₀ (frameBytes frame ++ [lineEnd]) lines cur g) (hidle : g.Idle)
    (hclean : Clean frame) : g.delivered = g₀.delivered ++ [frame] := by
  have hkeep : (frameBytes frame ++ [lineEnd]).filter (· ≠ 0x0d) = frameBytes frame ++ [lineEnd] := by
    apply List.filter_eq_self.mpr
    intro c hc
    rcases List.mem_append.mp hc with hc | hc
    · exact decide_eq_true (hclean c hc).2.2
    · rw [List.mem_singleton.mp hc]
      decide
  have hbytes := h.bytes
  rw [hkeep, hidle.1, hidle.2, List.append_nil] at hbytes
  simp only [Bool.false_eq_true, if_false, List.append_nil] at hbytes
  have hnoEnd : lineEnd ∉ frameBytes frame := fun hmem => (hclean _ hmem).2.1 rfl
  have hline : lines = [frameBytes frame] := by
    rcases lines with _ | ⟨l, lines⟩
    · have hmem : lineEnd ∈ cur := by
        rw [List.flatMap_nil, List.nil_append] at hbytes
        rw [← hbytes]
        simp
      exact absurd hmem h.cur_noEnd
    · have hsplit : frameBytes frame ++ lineEnd :: [] =
          l ++ lineEnd :: (lines.flatMap (· ++ [lineEnd]) ++ cur) := by
        rw [hbytes, List.flatMap_cons]
        simp
      obtain ⟨rfl, -, hrest⟩ :=
        (List.append_cons_inj_of_notMem hnoEnd List.not_mem_nil).mp hsplit
      rcases lines with _ | ⟨l', lines⟩
      · rfl
      · simp at hrest
  obtain ⟨fs, hfeed, hfs⟩ := h.decoded
  obtain ⟨d', hframe, -⟩ := feed_frameBytes (n := 30) clears_some h₀ frame hdata (by omega) (by omega)
  have hcut : cut (frameBytes frame) = frameBytes frame :=
    cut_eq_self fun hmem => (hclean _ hmem).1 rfl
  rw [hline, List.flatMap_singleton, hcut] at hfeed
  rw [hfs]
  have := hfeed.symm.trans hframe
  cases this
  rfl

/-- `port_sent_frame` against the driver and the decoder of the gateway. -/
theorem port_sent_frame_delivered_iff (h : g.Empty) (frame : PortFrame)
    (h1 : 1 ≤ frame.data.length) (h24 : frame.data.length ≤ 24) :
    ∃ bytes, NetInterface.portSentFrame frame = some bytes ∧
      ∀ steps, received steps = bytes →
        ∃ g', runList Gateway.step steps g = some g' ∧
          (g'.Idle → (g'.delivered = g.delivered ++ [frame] ↔ Clean frame)) ∧
          ∃ rest g'', received rest = [] ∧ runList Gateway.step rest g' = some g'' ∧ g''.Idle := by
  have hlen : (frameBytes frame ++ [lineEnd]).length ≤ 30 := by
    rw [List.length_append, length_frameBytes]
    show _ + 1 ≤ 30
    omega
  refine ⟨frameBytes frame ++ [lineEnd], if_pos hlen, ?_⟩
  intro steps hrec
  obtain ⟨g', lines, cur, hrun, hg'⟩ := assembled_run h.decoder steps (assembled_empty h)
    (by rw [List.nil_append, hrec]; exact hlen)
  rw [List.nil_append, hrec] at hg'
  refine ⟨g', hrun, ?_, idle_run h.decoder _ hg' hlen (Nat.le_refl _)⟩
  intro hidle
  exact ⟨clean_of_delivered h.decoder hg',
    delivered_of_clean h.decoder (List.ne_nil_of_length_pos h1) h24 hg' hidle⟩

theorem port_sent_frame_delivered_iff_init :
    ∃ bytes, NetInterface.portSentFrame ⟨1, [7]⟩ = some bytes ∧
      ∀ steps, received steps = bytes →
        ∃ g', runList Gateway.step steps Gateway.init = some g' ∧
          (g'.Idle → (g'.delivered = Gateway.init.delivered ++ [⟨1, [7]⟩] ↔ Clean ⟨1, [7]⟩)) ∧
          ∃ rest g'', received rest = [] ∧ runList Gateway.step rest g' = some g'' ∧ g''.Idle :=
  port_sent_frame_delivered_iff empty_init ⟨1, [7]⟩ (by decide) (by decide)

/-- Nine data bytes make the length byte `0x0a`: the frame is cut in two there. -/
theorem port_sent_frame_lost :
    ∃ frame steps, 1 ≤ frame.data.length ∧ frame.data.length ≤ 24 ∧ lineEnd ∉ frame.data ∧
      NetInterface.portSentFrame frame = some (received steps) ∧
      (runList Gateway.step steps .init).map
        (fun g => (g.line.rxbuf.contents, g.line.waiting, g.delivered)) = some ([], false, []) :=
  ⟨⟨1, List.replicate 9 7⟩,
    ((frameBytes ⟨1, List.replicate 9 7⟩ ++ [lineEnd]).map .byte) ++
      (List.replicate 17 [.round, .event]).flatten,
    by decide, by decide, by decide, by decide +kernel, by decide +kernel⟩

/-! ## Line after line -/

theorem reached_lines {d : Decoder} {fs : List PortFrame}
    (h : ez240UartProcess.feed lines start = some (d, fs)) : d.Reached 30 := by
  refine Machine.feed_invariant (I := Reached 30) ?_ (.inl inside_start) h
  intro rxdata d d' out hd hstep
  obtain ⟨s, -, hfeed⟩ := Option.bind_eq_some_iff.mp hstep
  exact reached_feed (by decide) clears_some hd hfeed

/-- The last byte of the line, the check byte, makes the decoder deliver the frame. -/
def DeliversLine (frame : PortFrame) (rest : List UInt8) (d : Decoder) : Prop :=
  ∃ d₁ fs d', SerialThread.frameDecode.feed (sentBuf frame) d = some (d₁, fs) ∧
    ez240UartProcess (frameBytes frame ++ 0 :: rest) d = some (d', fs ++ [frame])

theorem init_of_progress {d : Decoder} (h : d.progress = 0) : d.receiveState = .init := by
  unfold progress at h
  match hs : d.receiveState with
  | .init => rfl
  | .header | .len | .id | .data | .check => simp [hs] at h

/-- After any lines, the frame of a line is delivered exactly when they left the decoder in
    `DAT_INIT`. -/
theorem line_delivered_iff (lines : List (List UInt8)) (frame : PortFrame) (rest : List UInt8)
    (h1 : 1 ≤ frame.data.length) (h24 : frame.data.length ≤ 24) (hclean : Clean frame) :
    (∃ d fs, ez240UartProcess.feed lines start = some (d, fs) ∧ DeliversLine frame rest d) ↔
      ∃ d fs, ez240UartProcess.feed lines start = some (d, fs) ∧ d.receiveState = .init := by
  have hline : ∀ d, ez240UartProcess (frameBytes frame ++ 0 :: rest) d =
      SerialThread.frameDecode.feed (frameBytes frame) d := by
    intro d
    rw [ez240UartProcess_eq, cut_eq_self fun hmem => (hclean _ hmem).1 rfl]
  have hsent : (sentBuf frame).length = frame.data.length + 4 := by
    have := length_frameBytes frame
    rw [frameBytes, List.length_append, List.length_singleton] at this
    omega
  constructor
  · rintro ⟨d, fs, hfeed, d₁, fs₁, d', hsentBuf, hdel⟩
    have hreached := reached_lines hfeed
    refine ⟨d, fs, hfeed, init_of_progress ?_⟩
    rw [hline, frameBytes] at hdel
    obtain ⟨t, out₁, out₂, ht, hlast, hout⟩ := Machine.exists_of_feed_append hdel
    rw [hsentBuf] at ht
    cases ht
    obtain ⟨u, o₁, o₂, hstep, hnil, rfl⟩ := Machine.exists_of_feed_cons hlast
    cases hnil
    have hmem : frame ∈ o₁ := by
      rw [List.append_nil] at hout
      rw [← List.append_cancel_left hout]
      exact List.mem_singleton_self frame
    have hat := delivered_step (reached_feed (by decide) clears_some hreached hsentBuf) hstep hmem
    have hprog := progress_feed (by decide) clears_some hreached hsentBuf
    omega
  · rintro ⟨d, fs, hfeed, hs⟩
    have hready := ready_of_reached (reached_lines hfeed) hs
    have hdata := List.ne_nil_of_length_pos h1
    obtain ⟨d₁, hsentBuf, hd₁⟩ : ∃ d₁,
        (frameDecodeWith 30 some).feed (sentBuf frame) d = some (d₁, []) ∧ d₁.Received frame :=
      feed_sentBuf hready frame hdata (by omega) (by omega)
    obtain ⟨d', hstep, -⟩ := step_frame (n := 30) clears_some hd₁ (by omega) (by omega)
      (getCheck fun i => (sentBuf frame).getD (i + 2) 0)
    rw [if_pos rfl] at hstep
    refine ⟨d, fs, hfeed, d₁, [], d', hsentBuf, ?_⟩
    rw [hline, frameBytes]
    show (frameDecodeWith 30 some).feed (sentBuf frame ++ [_]) d = some (d', [frame])
    rw [Machine.feed_append hsentBuf, Machine.feed_cons hstep]
    rfl

/-- Behind a line of text a frame is delivered; behind a frame that was cut after its length byte it
    is not. -/
theorem line_delivered_iff_header :
    (∃ d fs, ez240UartProcess.feed [[0x41, 0]] start = some (d, fs) ∧
      DeliversLine ⟨1, [7]⟩ [] d) ∧
    ¬ ∃ d fs, ez240UartProcess.feed [(frameBytes ⟨2, [5, 6]⟩).take 3 ++ [0]] start = some (d, fs) ∧
      DeliversLine ⟨1, [7]⟩ [] d := by
  constructor
  · exact (line_delivered_iff _ ⟨1, [7]⟩ [] (by decide) (by decide) (by decide)).mpr ⟨_, _, rfl, rfl⟩
  · rw [line_delivered_iff _ ⟨1, [7]⟩ [] (by decide) (by decide) (by decide)]
    rintro ⟨d, fs, hfeed, hs⟩
    have hcut : (ez240UartProcess.feed [(frameBytes ⟨2, [5, 6]⟩).take 3 ++ [0]] start).map
        (fun r => r.1.receiveState) = some .id := by
      decide +kernel
    rw [hfeed, Option.map_some, hs] at hcut
    cases hcut

/-- A line of one header byte takes the header of the next line with it. -/
theorem line_swallowed :
    Clean ⟨1, [7]⟩ ∧
      (ez240UartProcess.feed [[header0, 0], frameBytes ⟨1, [7]⟩ ++ [0]] start).map (fun r => r.2) =
        some [] := by
  decide +kernel

end Adler.Serial
