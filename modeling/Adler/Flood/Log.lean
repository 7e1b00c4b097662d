/-
  The log of the flooding test: `broadcast_recv` of `flood_rx/test-flood.c` and of
  `flood_rx_uav/test-flood.c`, with the line each call writes to `com_fd`.

  The line is printed from `data_buf` before the packet is copied there, so it shows what the packet
  before left in that buffer.

  * `LogMachine`: a call with its line. `none` is a packet that does not fit `data_buf`.
  * `log_describes_iff`: every line describes its own packet exactly when the id, the source and the
    hops of all packets are 0, as in `data_buf` at the start.
  * `uav_log_shifted`: on the UAV every line but the first describes the packet before.
-/
import Adler.Flood.Node
import Adler.Lib.Decimal
import Adler.Lib.Feed

namespace Adler.Flood

open Lib (Mem Machine digits digits_le length_toDigits numbers numbers_toDigits)
open Deluge (RimeAddr toInt8)

/-- `CHUNKSIZE`, the length of `record_buf`. -/
@[simp] abbrev chunkSize : Nat := 64

/-- What `broadcast_recv` finds: `clock_time()`, `from->u8[0]` and the packet. -/
structure Heard where
  time : UInt32
  sender : RimeAddr
  data : List UInt8

/-- A `char` printed as `%u`, the `int` it is promoted to being of 16 bits. -/
def printed (c : UInt8) : Nat := (toInt8 c.toNat % 65536).toNat

/-- `sprintf(record_buf, "%lu %u %u %u\n", clock_time(), data_buf[0], data_buf[1], data_buf[2])`. -/
def record (time : UInt32) (s : Node) : List Char :=
  Nat.toDigits 10 time.toNat ++ ' ' :: (Nat.toDigits 10 (printed (s.dataBuf 0)) ++
    ' ' :: (Nat.toDigits 10 (printed (s.dataBuf 1)) ++
      ' ' :: (Nat.toDigits 10 (printed (s.dataBuf 2)) ++ ['\n'])))

/-- A call of `broadcast_recv`: the line it writes, then `recv`, which copies the packet. -/
def LogMachine (recv : RimeAddr → List UInt8 → Node → Node) : Machine Heard Node (List Char) :=
  fun h s =>
    if h.data.length ≤ bufLen then some (recv h.sender h.data s.begin, [record h.time s]) else none

/-- `broadcast_recv` of `flood_rx_uav`, which only listens. -/
def Uav.broadcastRecv (_sender : RimeAddr) (data : List UInt8) (s : Node) : Node :=
  { s with dataBuf := s.dataBuf.copy 0 data }

/-! ## Lines -/

theorem printed_of_lt {c : UInt8} (h : c.toNat < 128) : printed c = c.toNat := by
  rw [printed, toInt8, if_pos h]
  omega

theorem numbers_record (time : UInt32) (s : Node) : numbers (record time s) =
    [time.toNat, printed (s.dataBuf 0), printed (s.dataBuf 1), printed (s.dataBuf 2)] := by
  rw [record, numbers_toDigits _ (by decide), numbers_toDigits _ (by decide),
    numbers_toDigits _ (by decide), numbers_toDigits _ (by decide), Lib.numbers_nil]

theorem printed_lt (c : UInt8) : printed c < 65536 := by
  rw [printed]
  omega

/-- The line and its terminator fit `record_buf`. -/
theorem length_record_lt (time : UInt32) (s : Node) : (record time s).length < chunkSize := by
  have htime : digits time.toNat ≤ 10 :=
    digits_le (by decide) (Nat.lt_trans time.toNat_lt (by decide))
  have hprinted : ∀ c : UInt8, digits (printed c) ≤ 5 := fun c =>
    digits_le (by decide) (Nat.lt_trans (printed_lt c) (by decide))
  have hid := hprinted (s.dataBuf 0)
  have hsource := hprinted (s.dataBuf 1)
  have hhop := hprinted (s.dataBuf 2)
  simp only [record, List.length_append, List.length_cons, List.length_nil, length_toDigits,
    chunkSize]
  omega

/-- A line with the id, the source and the hops that the packet carries. -/
def Describes (line : List Char) (data : List UInt8) : Prop :=
  ∃ time packageId source hop rest, data = packageId :: source :: hop :: rest ∧
    numbers line = [time, packageId.toNat, source.toNat, hop.toNat]

/-- The next line shows zeros. -/
structure Blank (buf : Mem) : Prop where
  packageId : buf 0 = 0
  source : buf 1 = 0
  hop : buf 2 = 0

/-- A packet that such a line describes, and that fits `data_buf`. -/
def Heard.Unmarked (h : Heard) : Prop := h.data.length ≤ bufLen ∧ h.data.take 3 = [0, 0, 0]

instance (h : Heard) : Decidable h.Unmarked := inferInstanceAs (Decidable (_ ∧ _))

theorem toNat_eq_zero {c : UInt8} (h : c.toNat = 0) : c = 0 := UInt8.toNat_inj.mp h

theorem describes_blank {s : Node} (hs : Blank s.dataBuf) (time : UInt32) (data : List UInt8) :
    Describes (record time s) data ↔ data.take 3 = [0, 0, 0] := by
  have hnumbers : numbers (record time s) = [time.toNat, 0, 0, 0] := by
    rw [numbers_record, hs.packageId, hs.source, hs.hop]
    rfl
  constructor
  · rintro ⟨t, a, b, c, rest, rfl, hline⟩
    rw [hnumbers] at hline
    simp only [List.cons.injEq, and_true] at hline
    obtain ⟨-, ha, hb, hc⟩ := hline
    rw [toNat_eq_zero ha.symm, toNat_eq_zero hb.symm, toNat_eq_zero hc.symm]
    rfl
  · intro hzero
    refine ⟨time.toNat, 0, 0, 0, data.drop 3, ?_, hnumbers⟩
    rw [← List.take_append_drop 3 data, hzero]
    rfl

/-! ## Runs -/

variable {recv : RimeAddr → List UInt8 → Node → Node}

theorem logMachine_some {h : Heard} {s t : Node} {out : List (List Char)}
    (hstep : LogMachine recv h s = some (t, out)) :
    h.data.length ≤ bufLen ∧ t = recv h.sender h.data s.begin ∧ out = [record h.time s] := by
  unfold LogMachine at hstep
  split at hstep
  · cases hstep
    exact ⟨‹_›, rfl, rfl⟩
  · cases hstep

theorem logMachine_eq {h : Heard} (hlen : h.data.length ≤ bufLen) (s : Node) :
    LogMachine recv h s = some (recv h.sender h.data s.begin, [record h.time s]) := if_pos hlen

/-- Every line describes the packet of its call. -/
def LogDescribes (recv : RimeAddr → List UInt8 → Node → Node) (hs : List Heard) (s : Node) : Prop :=
  ∃ s' log, (LogMachine recv).feed hs s = some (s', log) ∧
    List.Forall₂ Describes log (hs.map (·.data))

theorem copy_blank (buf : Mem) {data : List UInt8} (h : data.take 3 = [0, 0, 0]) :
    Blank (buf.copy 0 data) := by
  obtain ⟨rest, rfl⟩ : ∃ rest, data = 0 :: 0 :: 0 :: rest := by
    refine ⟨data.drop 3, ?_⟩
    rw [← List.take_append_drop 3 data, h]
    rfl
  constructor
  all_goals
    rw [Mem.copy_of_mem _ _ _ (Nat.zero_le _) (by simp only [List.length_cons]; omega)]
    rfl

/-- What a program has to do for `log_describes_iff`: packets of zeros leave zeros. -/
def KeepsBlank (recv : RimeAddr → List UInt8 → Node → Node) : Prop :=
  ∀ sender data s, data.take 3 = [0, 0, 0] → Blank (recv sender data s).dataBuf

theorem keepsBlank_uav : KeepsBlank Uav.broadcastRecv := fun _ _ s h => copy_blank s.dataBuf h

/-- Id 0 is above no maximum. -/
theorem keepsBlank_relay : KeepsBlank Relay.broadcastRecv := by
  intro sender data s h
  have hblank := copy_blank s.dataBuf h
  have hold : ¬ toInt8 (s.dataBuf.copy 0 data 0).toNat > s.maxPackageNumber.toNat := by
    rw [hblank.packageId]
    show ¬ (0 : Int) > s.maxPackageNumber.toNat
    omega
  unfold Relay.broadcastRecv
  dsimp only
  rw [if_neg hold]
  exact hblank

theorem logDescribes_cons {h : Heard} {hs : List Heard} {s : Node} :
    LogDescribes recv (h :: hs) s ↔ h.data.length ≤ bufLen ∧ Describes (record h.time s) h.data ∧
      LogDescribes recv hs (recv h.sender h.data s.begin) := by
  constructor
  · intro hlog
    obtain ⟨s', log, hfeed, hall⟩ := hlog
    obtain ⟨t, out₁, out₂, hstep, hrest, rfl⟩ := Machine.exists_of_feed_cons hfeed
    obtain ⟨hlen, rfl, rfl⟩ := logMachine_some hstep
    obtain ⟨hline, hlines⟩ := List.forall₂_cons.mp hall
    exact ⟨hlen, hline, s', out₂, hrest, hlines⟩
  · rintro ⟨hlen, hline, s', log, hrest, hlines⟩
    refine ⟨s', record h.time s :: log, ?_, List.forall₂_cons.mpr ⟨hline, hlines⟩⟩
    rw [Machine.feed_cons (logMachine_eq hlen s), hrest]
    rfl

theorem logDescribes_iff (hrecv : KeepsBlank recv) (hs : List Heard) {s : Node}
    (h : Blank s.dataBuf) : LogDescribes recv hs s ↔ ∀ h ∈ hs, h.Unmarked := by
  induction hs generalizing s with
  | nil => exact ⟨fun _ _ hmem => absurd hmem List.not_mem_nil, fun _ => ⟨s, [], rfl, .nil⟩⟩
  | cons g hs ih =>
    rw [logDescribes_cons, describes_blank h, List.forall_mem_cons]
    constructor
    · rintro ⟨hlen, hzero, hrest⟩
      exact ⟨⟨hlen, hzero⟩, (ih (hrecv g.sender g.data _ hzero)).mp hrest⟩
    · rintro ⟨⟨hlen, hzero⟩, hrest⟩
      exact ⟨hlen, hzero, (ih (hrecv g.sender g.data _ hzero)).mpr hrest⟩

/-- **The flood log**, of both programs, for any packets from boot on: the lines describe the packets
    exactly when no packet has an id, a source or hops other than 0. -/
theorem log_describes_iff (hs : List Heard) :
    (LogDescribes Relay.broadcastRecv hs .start ↔ ∀ h ∈ hs, h.Unmarked) ∧
      (LogDescribes Uav.broadcastRecv hs .start ↔ ∀ h ∈ hs, h.Unmarked) :=
  have hstart : Blank Node.start.dataBuf := ⟨rfl, rfl, rfl⟩
  ⟨logDescribes_iff keepsBlank_relay hs hstart, logDescribes_iff keepsBlank_uav hs hstart⟩

/-- The first two packages as the origin sends them: neither program logs them. -/
theorem log_misses_packages :
    ¬ LogDescribes Relay.broadcastRecv
        [⟨640, 1, Origin.packet 1⟩, ⟨768, 1, Origin.packet 2⟩] .start ∧
      ¬ LogDescribes Uav.broadcastRecv
        [⟨640, 1, Origin.packet 1⟩, ⟨768, 1, Origin.packet 2⟩] .start := by
  have hmarked : ¬ ∀ h ∈ [(⟨640, 1, Origin.packet 1⟩ : Heard), ⟨768, 1, Origin.packet 2⟩],
      h.Unmarked := by decide
  have hstart : Blank Node.start.dataBuf := ⟨rfl, rfl, rfl⟩
  constructor
  · rw [logDescribes_iff keepsBlank_relay _ hstart]
    exact hmarked
  · rw [logDescribes_iff keepsBlank_uav _ hstart]
    exact hmarked

/-! ## What the lines show instead -/

/-- A packet of the test: it has the three bytes and room in `data_buf`, and `%u` prints them as they
    are. -/
def Plain (data : List UInt8) : Prop :=
  3 ≤ data.length ∧ data.length ≤ bufLen ∧ ∀ i, i < 3 → (data.getD i 0).toNat < 128

theorem describes_held {data : List UInt8} (h : Plain data) (time : UInt32) {s : Node}
    (hs : ∀ i, i < 3 → s.dataBuf i = data.getD i 0) : Describes (record time s) data := by
  obtain ⟨hlen, -, hlow⟩ := h
  match data, hlen with
  | a :: b :: c :: rest, _ =>
    have ha : printed (s.dataBuf 0) = a.toNat := by
      rw [hs 0 (by decide)]
      exact printed_of_lt (hlow 0 (by decide))
    have hb : printed (s.dataBuf 1) = b.toNat := by
      rw [hs 1 (by decide)]
      exact printed_of_lt (hlow 1 (by decide))
    have hc : printed (s.dataBuf 2) = c.toNat := by
      rw [hs 2 (by decide)]
      exact printed_of_lt (hlow 2 (by decide))
    refine ⟨time.toNat, a, b, c, rest, rfl, ?_⟩
    rw [numbers_record, ha, hb, hc]

/-- On the UAV a line describes the packet heard before its own. -/
theorem uav_log_shifted {last : List UInt8} (hlast : Plain last) (hs : List Heard)
    (hplain : ∀ h ∈ hs, Plain h.data) {s : Node}
    (hbuf : ∀ i, i < 3 → s.dataBuf i = last.getD i 0) :
    ∃ s' log, (LogMachine Uav.broadcastRecv).feed hs s = some (s', log) ∧
      List.Forall₂ Describes log (last :: hs.map (·.data)).dropLast := by
  induction hs generalizing last s with
  | nil => exact ⟨s, [], rfl, .nil⟩
  | cons h hs ih =>
    obtain ⟨hh, hrest⟩ := List.forall_mem_cons.mp hplain
    have hnext : ∀ i, i < 3 →
        (Uav.broadcastRecv h.sender h.data s.begin).dataBuf i = h.data.getD i 0 := fun i hi =>
      Mem.copy_of_mem _ _ _ (Nat.zero_le i) (by rw [Nat.zero_add]; exact Nat.lt_of_lt_of_le hi hh.1)
    obtain ⟨s', log, hfeed, hlines⟩ := ih hh hrest hnext
    refine ⟨s', record h.time s :: log, ?_, ?_⟩
    · rw [Machine.feed_cons (logMachine_eq hh.2.1 s), hfeed]
      rfl
    · exact List.forall₂_cons.mpr ⟨describes_held hlast h.time hbuf, hlines⟩

end Adler.Flood
