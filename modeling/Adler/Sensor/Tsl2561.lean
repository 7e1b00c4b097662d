/-
  The light sensor of the ez240 board: `calculateLux` of `platform/ez240/dev/tsl2561.c` with the
  calibration table of `tsl2561.h`.

  `ratio` is not initialised; what its memory holds is a parameter of the model.

  * `calculateLux`: the code, on unsigned 32-bit numbers.
  * `tableSegment`: the segment of the table for a ratio in units of 1/512.
  * `LuxExact`: the segment is that of the ratio, nothing wraps, and the result is the linear
    expression of the segment, rounded.
  * `luxExact_iff`: so it is exactly when channel 0 is not 0.
-/
import Adler.Lib.Rounding

namespace Adler.Tsl2561

open Lib (round_div_two_mul round_half)

/-- A threshold `KiT` with the coefficients `BiT` and `MiT`. -/
structure Segment where
  k : UInt32
  b : UInt32
  m : UInt32
deriving DecidableEq

/-- `K1T`, `B1T`, `M1T`, and so on. -/
@[simp] def segment1 : Segment := ⟨0x0040, 0x01f2, 0x01be⟩
@[simp] def segment2 : Segment := ⟨0x0080, 0x0214, 0x02d1⟩
@[simp] def segment3 : Segment := ⟨0x00c0, 0x023f, 0x037b⟩
@[simp] def segment4 : Segment := ⟨0x0100, 0x0270, 0x03fe⟩
@[simp] def segment5 : Segment := ⟨0x0138, 0x016f, 0x01fc⟩
@[simp] def segment6 : Segment := ⟨0x019a, 0x00d2, 0x00fb⟩
@[simp] def segment7 : Segment := ⟨0x029a, 0x0018, 0x0012⟩
@[simp] def segment8 : Segment := ⟨0x029a, 0x0000, 0x0000⟩

/-- The branch `calculateLux` takes. -/
def select (lratio : UInt32) : Option Segment :=
  if lratio ≥ 0 ∧ lratio ≤ segment1.k then some segment1
  else if lratio ≤ segment2.k then some segment2
  else if lratio ≤ segment3.k then some segment3
  else if lratio ≤ segment4.k then some segment4
  else if lratio ≤ segment5.k then some segment5
  else if lratio ≤ segment6.k then some segment6
  else if lratio ≤ segment7.k then some segment7
  else if lratio > segment8.k then some segment8
  else none

/-- `(buffer[i]*chScale) >> 10`, with `chScale` being `1<<14`. -/
def channel (reading : UInt16) : UInt32 := (reading.toUInt32 * 0x4000) >>> 10

/-- `lratio`; `ratio` is what the variable holds when nothing is assigned to it. -/
def lratio (ratio : UInt32) (buffer0 buffer1 : UInt16) : UInt32 :=
  let ch0 := channel buffer0
  let ch1 := channel buffer1
  let ratio := if ch0 ≠ 0 then (ch1 <<< 10) / ch0 else ratio
  (ratio + 1) >>> 1

/-- The end of `calculateLux`, which adds `1<<13`. -/
def roundOff (tmp : UInt32) : UInt16 :=
  let tmp := if tmp < 0 then 0 else tmp
  ((tmp + 0x2000) >>> 14).toUInt16

def calculateLux (ratio : UInt32) (buffer0 buffer1 : UInt16) : UInt16 :=
  match select (lratio ratio buffer0 buffer1) with
  | some s => roundOff (channel buffer0 * s.b - channel buffer1 * s.m)
  | none => roundOff 0

/-! ## What it is for -/

/-- The segments with a threshold. -/
def table : List Segment :=
  [segment1, segment2, segment3, segment4, segment5, segment6, segment7]

/-- The segment for a ratio in units of 1/512. -/
def tableSegment (ratio : Int) : Segment :=
  (table.find? fun s => ratio ≤ s.k.toNat).getD segment8

/-- The ratio of the channels, to the nearest 1/512. -/
def channelRatio (buffer0 buffer1 : UInt16) : Int :=
  round ((512 * buffer1.toNat : Nat) / (buffer0.toNat : ℚ))

/-- `calculateLux` does what the table says, whatever the uninitialised variable holds. -/
structure LuxExact (buffer0 buffer1 : UInt16) (s : Segment) : Prop where
  selects : ∀ ratio, select (lratio ratio buffer0 buffer1) = some s
  product0 : 16 * buffer0.toNat * s.b.toNat < 2 ^ 32
  product1 : 16 * buffer1.toNat * s.m.toNat < 2 ^ 32
  noBorrow : 16 * buffer1.toNat * s.m.toNat ≤ 16 * buffer0.toNat * s.b.toNat
  value : ∀ ratio, ((calculateLux ratio buffer0 buffer1).toNat : Int) =
    round (((16 * buffer0.toNat * s.b.toNat : Nat) - (16 * buffer1.toNat * s.m.toNat : Nat) : ℚ) /
      (2 ^ 14 : Nat))

/-! ## The channels and their ratio -/

theorem channel_toNat (reading : UInt16) : (channel reading).toNat = 16 * reading.toNat := by
  have hlt : reading.toNat < 2 ^ 16 := reading.toNat_lt
  have hprod : (reading.toUInt32 * 0x4000).toNat = reading.toNat * 16384 := by
    rw [UInt32.toNat_mul]
    exact Nat.mod_eq_of_lt (by show reading.toNat * 16384 < _; omega)
  rw [channel, UInt32.toNat_shiftRight, hprod, Nat.shiftRight_eq_div_pow]
  show reading.toNat * 16384 / 1024 = _
  omega

theorem channel_eq_zero {reading : UInt16} : channel reading = 0 ↔ reading = 0 := by
  rw [← UInt32.toNat_inj, ← UInt16.toNat_inj, channel_toNat]
  show 16 * reading.toNat = 0 ↔ reading.toNat = 0
  omega

theorem toNat_pos {reading : UInt16} (h : reading ≠ 0) : 0 < reading.toNat := by
  rw [Nat.pos_iff_ne_zero]
  exact fun hz => h (UInt16.toNat_inj.mp hz)

/-- `lratio` is the ratio of the readings to the nearest 1/512. -/
theorem lratio_eq {buffer0 : UInt16} (h : buffer0 ≠ 0) (ratio : UInt32) (buffer1 : UInt16) :
    ((lratio ratio buffer0 buffer1).toNat : Int) = channelRatio buffer0 buffer1 := by
  have hlt : buffer1.toNat < 2 ^ 16 := buffer1.toNat_lt
  have hpos := toNat_pos h
  have hch0 : channel buffer0 ≠ 0 := fun hz => h (channel_eq_zero.mp hz)
  have hshift : (channel buffer1 <<< 10).toNat = 16 * (1024 * buffer1.toNat) := by
    rw [UInt32.toNat_shiftLeft, channel_toNat]
    show (16 * buffer1.toNat) <<< 10 % 2 ^ 32 = _
    rw [Nat.shiftLeft_eq]
    omega
  have hratio : (channel buffer1 <<< 10 / channel buffer0).toNat =
      1024 * buffer1.toNat / buffer0.toNat := by
    rw [UInt32.toNat_div, hshift, channel_toNat, Nat.mul_div_mul_left _ _ (by decide)]
  have hle : 1024 * buffer1.toNat / buffer0.toNat ≤ 1024 * buffer1.toNat := Nat.div_le_self _ _
  have hsum : (channel buffer1 <<< 10 / channel buffer0 + 1).toNat =
      1024 * buffer1.toNat / buffer0.toNat + 1 := by
    rw [UInt32.toNat_add, hratio]
    exact Nat.mod_eq_of_lt (by show _ + 1 < _; omega)
  have hdouble : 2 * (512 * buffer1.toNat) = 1024 * buffer1.toNat := by omega
  rw [channelRatio, round_half _ hpos, hdouble, lratio, if_pos hch0, UInt32.toNat_shiftRight, hsum,
    Nat.shiftRight_eq_div_pow]
  rfl

theorem getD_find_cons (s : Segment) (l : List Segment) (x : Nat) :
    ((s :: l).find? fun s => (x : Int) ≤ s.k.toNat).getD segment8 =
      if x ≤ s.k.toNat then s else (l.find? fun s => (x : Int) ≤ s.k.toNat).getD segment8 := by
  by_cases h : x ≤ s.k.toNat
  · have hle : (x : Int) ≤ s.k.toNat := Int.ofNat_le.mpr h
    rw [List.find?_cons, decide_eq_true hle, if_pos h]
    rfl
  · have hgt : ¬ (x : Int) ≤ s.k.toNat := fun hle => h (Int.ofNat_le.mp hle)
    rw [List.find?_cons, decide_eq_false hgt, if_neg h]

/-- The `if` chain follows the table. -/
theorem select_eq (lratio : UInt32) : select lratio = some (tableSegment lratio.toNat) := by
  have hnonneg : lratio ≥ 0 := UInt32.zero_le
  unfold select tableSegment table
  simp only [getD_find_cons, List.find?_nil, Option.getD_none, hnonneg, true_and,
    UInt32.le_iff_toNat_le, UInt32.lt_iff_toNat_lt, gt_iff_lt]
  split_ifs with h1 h2 h3 h4 h5 h6 h7 h8
  all_goals first | rfl | exact absurd (Nat.lt_of_not_le h7) h8

theorem tableSegment_cases (ratio : Int) :
    tableSegment ratio ∈ table ∧ ratio ≤ (tableSegment ratio).k.toNat ∨
      tableSegment ratio = segment8 := by
  unfold tableSegment
  cases hfind : table.find? fun s => ratio ≤ s.k.toNat with
  | some s =>
    have hle := List.find?_some hfind
    exact .inl ⟨List.mem_of_find?_eq_some hfind, of_decide_eq_true hle⟩
  | none => exact .inr rfl

/-! ## The linear expressions -/

/-- Up to its threshold a segment does not go below zero. -/
theorem table_room : ∀ s ∈ table, (2 * s.k.toNat + 1) * s.m.toNat ≤ 1024 * s.b.toNat := by decide

theorem table_coefficients : ∀ s ∈ table, s.b.toNat ≤ 624 ∧ s.m.toNat ≤ 1022 := by decide

theorem tableSegment_coefficients (ratio : Int) :
    (tableSegment ratio).b.toNat ≤ 624 ∧ (tableSegment ratio).m.toNat ≤ 1022 := by
  rcases tableSegment_cases ratio with ⟨hmem, -⟩ | h8
  · exact table_coefficients _ hmem
  · rw [h8]
    decide

theorem noBorrow_of_ratio {x y k b m : Nat} (hx : 0 < x) (hk : (2 * (512 * y) / x + 1) / 2 ≤ k)
    (hroom : (2 * k + 1) * m ≤ 1024 * b) : y * m ≤ x * b := by
  have hquot : 2 * (512 * y) / x < 2 * k + 1 := by omega
  have hlt : 2 * (512 * y) < (2 * k + 1) * x := (Nat.div_lt_iff_lt_mul hx).mp hquot
  have hmul : 1024 * (y * m) ≤ 1024 * (x * b) := by
    calc
      1024 * (y * m) = 2 * (512 * y) * m := by ring
      _ ≤ (2 * k + 1) * x * m := Nat.mul_le_mul_right m hlt.le
      _ = (2 * k + 1) * m * x := by ring
      _ ≤ 1024 * b * x := Nat.mul_le_mul_right x hroom
      _ = 1024 * (x * b) := by ring
  omega

theorem noBorrow {buffer0 : UInt16} (h : buffer0 ≠ 0) (buffer1 : UInt16) :
    buffer1.toNat * (tableSegment (channelRatio buffer0 buffer1)).m.toNat ≤
      buffer0.toNat * (tableSegment (channelRatio buffer0 buffer1)).b.toNat := by
  have hpos := toNat_pos h
  rcases tableSegment_cases (channelRatio buffer0 buffer1) with ⟨hmem, hle⟩ | h8
  · have hround : channelRatio buffer0 buffer1 =
        ((2 * (512 * buffer1.toNat) / buffer0.toNat + 1) / 2 : Nat) := round_half _ hpos
    exact noBorrow_of_ratio hpos (Int.ofNat_le.mp (hround.symm.le.trans hle)) (table_room _ hmem)
  · rw [h8]
    exact Nat.le_of_eq (Nat.mul_zero _)

/-- `roundOff` of what the table can lead to. -/
theorem roundOff_toNat {tmp : UInt32} (h : tmp.toNat ≤ 16 * 65535 * 624) :
    (roundOff tmp).toNat = (tmp.toNat + 8192) / 16384 := by
  have hnot : ¬ tmp < 0 := by
    rw [UInt32.lt_iff_toNat_lt]
    exact Nat.not_lt_zero _
  have hsum : (tmp + 0x2000).toNat = tmp.toNat + 8192 := by
    rw [UInt32.toNat_add]
    exact Nat.mod_eq_of_lt (by show tmp.toNat + 8192 < _; omega)
  rw [roundOff, if_neg hnot, UInt32.toNat_toUInt16, UInt32.toNat_shiftRight, hsum,
    Nat.shiftRight_eq_div_pow]
  show (tmp.toNat + 8192) / 16384 % 65536 = _
  omega

theorem channel_mul {buffer : UInt16} {c : UInt32} (h : 16 * buffer.toNat * c.toNat < 2 ^ 32) :
    (channel buffer * c).toNat = 16 * buffer.toNat * c.toNat := by
  rw [UInt32.toNat_mul, channel_toNat]
  exact Nat.mod_eq_of_lt h

/-- A product of a channel and a coefficient. -/
theorem product_le (buffer : UInt16) {c n : Nat} (hc : c ≤ n) :
    16 * buffer.toNat * c ≤ 16 * 65535 * n := by
  have hlt : buffer.toNat < 65536 := buffer.toNat_lt
  exact Nat.mul_le_mul (Nat.mul_le_mul_left 16 (Nat.le_of_lt_succ hlt)) hc

theorem luxExact_of_ne {buffer0 : UInt16} (h : buffer0 ≠ 0) (buffer1 : UInt16) :
    LuxExact buffer0 buffer1 (tableSegment (channelRatio buffer0 buffer1)) := by
  have hborrow := noBorrow h buffer1
  obtain ⟨hb, hm⟩ := tableSegment_coefficients (channelRatio buffer0 buffer1)
  have hselect : ∀ ratio, select (lratio ratio buffer0 buffer1) =
      some (tableSegment (channelRatio buffer0 buffer1)) := by
    intro ratio
    rw [select_eq, lratio_eq h]
  generalize tableSegment (channelRatio buffer0 buffer1) = s at hborrow hb hm hselect ⊢
  have hle0 := product_le buffer0 hb
  have hle1 := product_le buffer1 hm
  have hsub : 16 * buffer1.toNat * s.m.toNat ≤ 16 * buffer0.toNat * s.b.toNat := by
    rw [Nat.mul_assoc, Nat.mul_assoc]
    exact Nat.mul_le_mul_left 16 hborrow
  refine ⟨hselect, by omega, by omega, hsub, ?_⟩
  intro ratio
  have hprod0 : (channel buffer0 * s.b).toNat = 16 * buffer0.toNat * s.b.toNat :=
    channel_mul (by omega)
  have hprod1 : (channel buffer1 * s.m).toNat = 16 * buffer1.toNat * s.m.toNat :=
    channel_mul (by omega)
  have htmp : (channel buffer0 * s.b - channel buffer1 * s.m).toNat =
      16 * buffer0.toNat * s.b.toNat - 16 * buffer1.toNat * s.m.toNat := by
    rw [UInt32.toNat_sub_of_le, hprod0, hprod1]
    rw [UInt32.le_iff_toNat_le, hprod0, hprod1]
    exact hsub
  have hlux : calculateLux ratio buffer0 buffer1 =
      roundOff (channel buffer0 * s.b - channel buffer1 * s.m) := by
    rw [calculateLux, hselect]
  rw [hlux, roundOff_toNat (by rw [htmp]; omega), htmp, ← Nat.cast_sub hsub]
  exact (round_div_two_mul _ (by decide)).symm

/-- With channel 0 at 0 the segment is that of the uninitialised variable. -/
theorem lratio_zero (ratio : UInt32) (buffer1 : UInt16) :
    lratio ratio 0 buffer1 = (ratio + 1) >>> 1 := rfl

/-- **The lux computation** for any two readings: it takes the segment of their ratio, stays inside
    its words and gives the rounded value of the segment, exactly when channel 0 is not 0. -/
theorem luxExact_iff (buffer0 buffer1 : UInt16) :
    LuxExact buffer0 buffer1 (tableSegment (channelRatio buffer0 buffer1)) ↔ buffer0 ≠ 0 := by
  refine ⟨?_, fun h => luxExact_of_ne h buffer1⟩
  rintro h rfl
  have hlow := h.selects 0
  have hhigh := h.selects 2000
  rw [lratio_zero] at hlow hhigh
  rw [← hlow] at hhigh
  exact absurd hhigh (by decide)

/-- In the dark with one count in channel 1, two values of the uninitialised variable. -/
theorem lux_dark : ¬ LuxExact 0 1 (tableSegment (channelRatio 0 1)) ∧
    calculateLux 200 0 1 = 65535 ∧ calculateLux 2000 0 1 = 0 := by
  refine ⟨?_, by decide, by decide⟩
  intro h
  have hlow := h.selects 200
  have hhigh := h.selects 2000
  rw [← hlow] at hhigh
  exact absurd hhigh (by decide)

end Adler.Tsl2561
